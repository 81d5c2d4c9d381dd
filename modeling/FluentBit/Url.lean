import FluentBit.Lib.CString

/-!
# Splitting a URL

`flb_utils_url_split` and `flb_utils_url_split_sds` are two copies of one
scanner, which cuts a URL at `://`, at the first `:` and at the first `/`.  They
differ in how they copy a host between brackets, and in the checks on the parts
that the second one makes at the end.
-/

namespace FluentBit.Url

open List

/-- The parts of a URL.  A host or port may be missing. -/
structure Parts where
  protocol : List Byte
  host : Option (List Byte)
  port : Option (List Byte)
  uri : List Byte
deriving DecidableEq

def copySubstr (string : List Byte) (posInit posEnd : Nat) : Option (List Byte) :=
  if posEnd < posInit then none else some ((string.take posEnd).drop posInit)

/-- `flb_copy_host`, from the start of the string. -/
def copyHost (string : List Byte) (posEnd : Nat) : Option (List Byte) :=
  if string.head? = some 91 then
    if string[posEnd - 1]? ≠ some 93 then none
    else copySubstr string 1 (posEnd - 1)
  else copySubstr string 0 posEnd

/-- `flb_utils_copy_host_sds`, from the start of the string.  The number of bytes
is counted from behind the bracket. -/
def copyHostSds (string : List Byte) (posEnd : Nat) : Option (List Byte) :=
  if string.head? = some 91 then
    if string[posEnd - 1]? ≠ some 93 then none
    else some ((string.drop 1).take (posEnd - 1))
  else some (string.take posEnd)

def protocolEnd : List Byte := [58, 47, 47]

def http : List Byte := [104, 116, 116, 112]

def https : List Byte := [104, 116, 116, 112, 115]

def defaultPort (protocol : List Byte) : Option (List Byte) :=
  if protocol = http then some [56, 48]
  else if protocol = https then some [52, 52, 51]
  else none

/-- The colon in front of a port, unless the first slash comes before it. -/
def portSeparator (p : List Byte) : Option (List Byte) :=
  match memchr p 47, memchr p 58 with
  | some sep, some tmp => if tmp.length < sep.length then none else some tmp
  | _, tmp => tmp

/-- What comes behind `://`: the host, the port and the URI. -/
def splitAuthority (copy : List Byte → Nat → Option (List Byte)) (protocol p : List Byte) :
    Option Parts :=
  match portSeparator p with
  | some tmp =>
    match copy p (p.length - tmp.length) with
    | none => none
    | some host =>
      let p := tmp.tail
      match memchr p 47 with
      | some tmp =>
        some
          { protocol := protocol
            host := some host
            port := some (p.take (p.length - tmp.length))
            uri := tmp }
      | none =>
        some
          { protocol := protocol, host := some host, port := some p, uri := [47] }
  | none =>
    match memchr p 47 with
    | some tmp =>
      some
        { protocol := protocol
          host := copy p (p.length - tmp.length)
          port := defaultPort protocol
          uri := tmp }
    | none =>
      some
        { protocol := protocol, host := copy p p.length, port := defaultPort protocol, uri := [47] }

def scan (copy : List Byte → Nat → Option (List Byte)) (inUrl : List Byte) : Option Parts :=
  match strstr protocolEnd inUrl with
  | none => none
  | some p =>
    if p.length = inUrl.length then none
    else
      splitAuthority copy (inUrl.take (inUrl.length - p.length)) (p.drop 3)

/-- `flb_utils_url_split`; nothing when it returns -1. -/
def urlSplit (inUrl : CString) : Option Parts := scan copyHost inUrl.bytes

def isdigit (byte : Byte) : Bool := 48 ≤ byte && byte ≤ 57

/-- The checks of `flb_utils_url_split_sds` on the parts. -/
def checkParts (parts : Parts) : Option Parts :=
  match parts.host, parts.port with
  | some _, some port => if port.all isdigit then some parts else none
  | _, _ => none

/-- `flb_utils_url_split_sds`; nothing when it returns -1. -/
def urlSplitSds (inUrl : CString) : Option Parts := (scan copyHostSds inUrl.bytes).bind checkParts

inductive Host where
  | name (bytes : List Byte)
  | literal (address : List Byte)

def Host.bytes : Host → List Byte
  | name bytes => bytes
  | literal address => address

def Host.text : Host → List Byte
  | name bytes => bytes
  | literal address => 91 :: (address ++ [93])

/-- A name has no colon and no slash; an IPv6 address has colons, but no slash
and no bracket. -/
def Host.Valid : Host → Prop
  | name bytes => bytes ≠ [] ∧ 58 ∉ bytes ∧ 47 ∉ bytes
  | literal address => 58 ∈ address ∧ 47 ∉ address ∧ 93 ∉ address

/-- The parts of a URL as they are written; the path is what comes behind the
slash. -/
structure Written where
  protocol : List Byte
  host : Host
  port : Option (List Byte)
  path : Option (List Byte)

def Written.portText (url : Written) : List Byte :=
  match url.port with
  | none => []
  | some port => 58 :: port

def Written.pathText (url : Written) : List Byte :=
  match url.path with
  | none => []
  | some path => 47 :: path

/-- The URL `proto://host[:port][/path]`. -/
def Written.text (url : Written) : List Byte :=
  url.protocol ++ (protocolEnd ++ (url.host.text ++ (url.portText ++ url.pathText)))

structure WellFormed extends Written where
  protocol_ne_nil : protocol ≠ []
  protocol_no_colon : 58 ∉ protocol
  host_valid : host.Valid
  port_digits : ∀ digits, port = some digits → digits ≠ [] ∧ digits.all isdigit = true
  noNul : 0 ∉ toWritten.text

def WellFormed.string (url : WellFormed) : CString := ⟨url.text, url.noNul⟩

def Written.parts (url : Written) : Parts where
  protocol := url.protocol
  host := some url.host.bytes
  port := url.port.or (defaultPort url.protocol)
  uri :=
    match url.path with
    | none => [47]
    | some path => 47 :: path

theorem portSeparator_colon {before : List Byte} (noColon : 58 ∉ before) (noSlash : 47 ∉ before)
    (rest : List Byte) : portSeparator (before ++ 58 :: rest) = some (58 :: rest) := by
  rw [portSeparator, memchr_append noColon, memchr_append_of_notMem noSlash]
  cases slash : memchr (58 :: rest) 47 with
  | none => rfl
  | some sep => exact if_neg (Nat.not_lt.mpr (length_le_of_memchr slash))

theorem portSeparator_slash {before : List Byte} (noColon : 58 ∉ before) (noSlash : 47 ∉ before)
    (rest : List Byte) : portSeparator (before ++ 47 :: rest) = none := by
  rw [portSeparator, memchr_append noSlash, memchr_append_of_notMem noColon]
  cases colon : memchr (47 :: rest) 58 with
  | none => rfl
  | some tmp =>
    -- the colon is found behind the slash
    have behind : memchr rest 58 = some tmp := by
      rw [← colon]
      rfl
    exact if_pos (Nat.lt_succ_of_le (length_le_of_memchr behind))

theorem scan_protocol (copy : List Byte → Nat → Option (List Byte)) {protocol : List Byte}
    (nonempty : protocol ≠ []) (noColon : 58 ∉ protocol) (rest : List Byte) :
    scan copy (protocol ++ (protocolEnd ++ rest)) =
      splitAuthority copy protocol rest := by
  have found : strstr protocolEnd (protocol ++ (protocolEnd ++ rest)) = some (protocolEnd ++ rest)
    := strstr_append noColon [47, 47] rest
  have positive := length_pos_of_ne_nil nonempty
  have lengths : (protocol ++ (protocolEnd ++ rest)).length = protocol.length +
    (protocolEnd ++ rest).length := length_append
  have inside : ¬((protocolEnd ++ rest).length =
      (protocol ++ (protocolEnd ++ rest)).length) := by
    omega
  rw [scan, found]
  simp only [if_neg inside]
  rw [lengths, Nat.add_sub_cancel, take_left]
  rfl

def Written.partsWith (url : Written) (host : Option (List Byte)) : Parts :=
  { url.parts with host := host }

theorem partsWith_eq_parts_iff {url : Written} {host : Option (List Byte)} :
    url.partsWith host = url.parts ↔ host = some url.host.bytes := by
  constructor
  · intro same
    exact congrArg Parts.host same
  · intro same
    rw [same]
    rfl

variable {copy : List Byte → Nat → Option (List Byte)} {bytes : List Byte}

section
variable {url : Written}

theorem splitAuthority_port {digits : List Byte} (noColon : 58 ∉ bytes) (noSlash : 47 ∉ bytes)
    (isDigits : digits.all isdigit = true) (port : url.port = some digits) :
    splitAuthority copy url.protocol (bytes ++ (url.portText ++ url.pathText)) =
      (copy (bytes ++ (url.portText ++ url.pathText)) bytes.length).map
        fun host => url.partsWith (some host) := by
  have separator := portSeparator_colon noColon noSlash (digits ++ url.pathText)
  have text : url.portText ++ url.pathText = 58 :: (digits ++ url.pathText) := by
    rw [Written.portText, port]
    rfl
  have position : (bytes ++ 58 :: (digits ++ url.pathText)).length -
      (58 :: (digits ++ url.pathText)).length = bytes.length := by
    rw [length_append, Nat.add_sub_cancel]
  have noSlashInPort : 47 ∉ digits := fun member =>
    absurd (all_eq_true.mp isDigits 47 member) (by decide)
  rw [text, splitAuthority, separator]
  simp only [position]
  cases copy (bytes ++ 58 :: (digits ++ url.pathText)) bytes.length with
  | none => rfl
  | some host =>
    simp only [tail_cons, Written.pathText, Option.map_some, Written.partsWith, Written.parts, port]
    cases path : url.path with
    | none =>
      rw [append_nil, memchr_eq_none_iff.mpr noSlashInPort]
      rfl
    | some path =>
      simp only [memchr_append noSlashInPort, length_append, Nat.add_sub_cancel, take_left]
      rfl

theorem splitAuthority_noPort (noColon : 58 ∉ bytes) (noSlash : 47 ∉ bytes)
    (port : url.port = none) :
    splitAuthority copy url.protocol (bytes ++ (url.portText ++ url.pathText)) =
      some (url.partsWith (copy (bytes ++ (url.portText ++ url.pathText)) bytes.length)) := by
  have text : url.portText ++ url.pathText = url.pathText := by
    rw [Written.portText, port]
    rfl
  rw [text]
  simp only [Written.pathText, Written.partsWith, Written.parts, port]
  cases path : url.path with
  | none =>
    rw [append_nil, splitAuthority, portSeparator, memchr_eq_none_iff.mpr noColon]
    simp only [memchr_eq_none_iff.mpr noSlash]
    rfl
  | some path =>
    rw [splitAuthority, portSeparator_slash noColon noSlash]
    simp only [memchr_append noSlash, length_append, Nat.add_sub_cancel]
    rfl

/-- The scanner gives the parts of a URL with a name exactly when the name is
copied as it is. -/
theorem scan_name_iff {url : WellFormed} (name : url.host = .name bytes) :
    scan copy url.text = some url.parts ↔
      copy (bytes ++ (url.portText ++ url.pathText)) bytes.length = some bytes := by
  have valid := url.host_valid
  rw [name] at valid
  have hostText : url.host.text = bytes := by
    rw [name]
    rfl
  have hostBytes : url.host.bytes = bytes := by
    rw [name]
    rfl
  rw [Written.text, scan_protocol copy url.protocol_ne_nil url.protocol_no_colon, hostText]
  cases port : url.port with
  | none =>
    rw [splitAuthority_noPort valid.2.1 valid.2.2 port, Option.some.injEq,
      partsWith_eq_parts_iff, hostBytes]
  | some digits =>
    have isDigits := (url.port_digits digits port).2
    rw [splitAuthority_port valid.2.1 valid.2.2 isDigits port, Option.map_eq_some_iff]
    constructor
    · intro copied
      obtain ⟨host, result, same⟩ := copied
      rw [partsWith_eq_parts_iff, hostBytes] at same
      rw [result, same]
    · intro result
      refine ⟨bytes, result, ?_⟩
      rw [partsWith_eq_parts_iff, hostBytes]

end

structure CopiesHosts (copy : List Byte → Nat → Option (List Byte)) : Prop where
  plain : ∀ string posEnd, string.head? ≠ some 91 → copy string posEnd = some (string.take posEnd)
  unclosed : ∀ string posEnd, string.head? = some 91 →
    string[posEnd - 1]? ≠ some 93 → copy string posEnd = none

theorem copiesHosts_copyHost : CopiesHosts copyHost where
  plain := by
    intro string posEnd noBracket
    rw [copyHost, if_neg noBracket, copySubstr, if_neg (Nat.not_lt_zero _), drop_zero]
  unclosed := by
    intro string posEnd bracket unclosed
    rw [copyHost, if_pos bracket, if_pos unclosed]

theorem copiesHosts_copyHostSds : CopiesHosts copyHostSds where
  plain := by
    intro string posEnd noBracket
    rw [copyHostSds, if_neg noBracket]
  unclosed := by
    intro string posEnd bracket unclosed
    rw [copyHostSds, if_pos bracket, if_pos unclosed]

theorem CopiesHosts.name (copies : CopiesHosts copy)
    (nonempty : bytes ≠ []) (noBracket : bytes.head? ≠ some 91)
    (rest : List Byte) : copy (bytes ++ rest) bytes.length = some bytes := by
  have head : (bytes ++ rest).head? ≠ some 91 := by
    rw [List.head?_append_of_ne_nil _ nonempty]
    exact noBracket
  rw [copies.plain _ _ head, take_left]

theorem copyHost_bracket (bracket : bytes.head? = some 91) (rest : List Byte) :
    copyHost (bytes ++ rest) bytes.length ≠ some bytes := by
  have nonempty : bytes ≠ [] := by
    intro empty
    rw [empty] at bracket
    cases bracket
  have positive := length_pos_of_ne_nil nonempty
  have head : (bytes ++ rest).head? = some 91 := by
    rw [List.head?_append_of_ne_nil _ nonempty, bracket]
  rw [copyHost, if_pos head]
  split
  · exact fun contradiction => by cases contradiction
  · rw [copySubstr]
    split
    · exact fun contradiction => by cases contradiction
    · intro same
      have lengths := congrArg List.length (Option.some.inj same)
      rw [length_drop, length_take] at lengths
      omega

/-- An address is cut at its first colon, in front of the closing bracket. -/
theorem scan_literal (copies : CopiesHosts copy)
    {url : WellFormed} {address : List Byte} (literal : url.host = .literal address) :
    scan copy url.text = none := by
  have valid := url.host_valid
  rw [literal] at valid
  obtain ⟨colon, noSlash, noBracket⟩ := valid
  obtain ⟨before, after, whole, noColon⟩ := eq_append_cons_of_mem colon
  subst whole
  have text : url.host.text ++ (url.portText ++ url.pathText) =
      (91 :: before) ++ 58 :: (after ++ 93 :: (url.portText ++ url.pathText)) := by
    rw [literal]
    simp [Host.text]
  have noColon : (58 : Byte) ∉ 91 :: before := by simpa using noColon
  have noSlash : (47 : Byte) ∉ 91 :: before := by
    simpa using fun member => noSlash (mem_append_left _ member)
  have lastByte : ∀ rest : List Byte,
      ((91 :: before) ++ rest)[(91 :: before).length - 1]? ≠ some 93 := by
    intro rest found
    rw [List.getElem?_append_left (Nat.sub_one_lt_of_lt (Nat.succ_pos _))] at found
    rcases mem_cons.mp (mem_of_getElem? found) with first | later
    · exact absurd first (by decide)
    · exact noBracket (mem_append_left _ later)
  rw [Written.text, scan_protocol copy url.protocol_ne_nil url.protocol_no_colon, text,
    splitAuthority, portSeparator_colon noColon noSlash]
  simp only [length_append (α := Byte), Nat.add_sub_cancel, copies.unclosed _ _ rfl (lastByte _)]

/-- The condition of `flb_utils_url_split_sds`: there is a port. -/
def Written.HasPort (url : Written) : Prop :=
  url.port ≠ none ∨ url.protocol = http ∨ url.protocol = https

theorem checkParts_parts {url : WellFormed} (hasPort : url.HasPort) :
    checkParts url.parts = some url.parts := by
  obtain ⟨port, known, digits⟩ : ∃ port,
      url.parts.port = some port ∧ port.all isdigit = true := by
    cases given : url.port with
    | some digits =>
      refine ⟨digits, ?_, (url.port_digits digits given).2⟩
      rw [Written.parts, given]
      rfl
    | none =>
      have missing : url.parts.port = defaultPort url.protocol := by
        rw [Written.parts, given]
        rfl
      rw [missing]
      rcases hasPort with port | isHttp | isHttps
      · exact absurd given port
      · rw [isHttp]
        exact ⟨_, rfl, by decide⟩
      · rw [isHttps]
        exact ⟨_, rfl, by decide⟩
  have host : url.parts.host = some url.host.bytes := rfl
  rw [checkParts, known, host]
  exact if_pos digits

structure SplitsWell (url : WellFormed) : Prop where
  plain : urlSplit url.string = some url.parts
  sds : url.HasPort → urlSplitSds url.string = some url.parts
  agree : url.HasPort → urlSplitSds url.string = urlSplit url.string

/-- A URL is split into its parts exactly when its host does not start with a
bracket. -/
theorem url_split_gives_parts (url : WellFormed) :
    SplitsWell url ↔ url.host.text.head? ≠ some 91 := by
  cases host : url.host with
  | literal address =>
    have refused : urlSplit url.string = none := scan_literal copiesHosts_copyHost host
    constructor
    · intro splits
      have given := splits.plain
      rw [refused] at given
      cases given
    · intro noBracket
      exact absurd rfl noBracket
  | name bytes =>
    constructor
    · intro splits bracket
      have copied := (scan_name_iff host).mp splits.plain
      exact copyHost_bracket bracket _ copied
    · intro noBracket
      have valid := url.host_valid
      rw [host] at valid
      have plain : urlSplit url.string = some url.parts :=
        (scan_name_iff host).mpr (copiesHosts_copyHost.name valid.1 noBracket _)
      have scanned : scan copyHostSds url.text = some url.parts :=
        (scan_name_iff host).mpr (copiesHosts_copyHostSds.name valid.1 noBracket _)
      have sds : url.HasPort → urlSplitSds url.string = some url.parts := by
        intro hasPort
        have start : urlSplitSds url.string = (scan copyHostSds url.text).bind checkParts := rfl
        rw [start, scanned]
        exact checkParts_parts hasPort
      refine ⟨plain, sds, ?_⟩
      intro hasPort
      rw [sds hasPort, plain]

/-- The URL `http://[::1]:80/`. -/
def loopback : WellFormed where
  protocol := http
  host := .literal [58, 58, 49]
  port := some [56, 48]
  path := some []
  protocol_ne_nil := by decide
  protocol_no_colon := by decide
  host_valid := ⟨by decide, by decide, by decide⟩
  port_digits := by
    intro digits given
    cases given
    exact ⟨by decide, by decide⟩
  noNul := by decide

/-- The first colon of an address is taken for the one in front of the port. -/
theorem url_split_refuses_literals :
    urlSplit loopback.string = none ∧ urlSplitSds loopback.string = none := by
  decide

end FluentBit.Url
