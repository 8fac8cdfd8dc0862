import WorkflowEngine.Text.Integer

/-!
# Addresses

Reads an absolute address far enough to tell its scheme and whether it is well formed. Blanks and
control characters at the ends do not count, nor do tabs and line breaks anywhere. Addresses of the
special schemes need a host; a host that ends in a number has to be an address of the internet
protocol, and a port has to fit 16 bits.
-/

namespace WorkflowEngine.Http.Url

/-- Why a text is no address. -/
inductive Fault where
  /-- No scheme in front. -/
  | noScheme
  /-- No host where one is needed. -/
  | emptyHost
  /-- A host with characters that it cannot have, or a malformed numeric address. -/
  | invalidHost
  /-- A port that is no number of 16 bits. -/
  | invalidPort
  deriving DecidableEq, Repr

/-- A fault in words. -/
def Fault.message : Fault → String
  | .noScheme => "relative address without a base"
  | .emptyHost => "empty host"
  | .invalidHost => "invalid host"
  | .invalidPort => "invalid port number"

/-- How a scheme's addresses are read. -/
inductive SchemeClass where
  /-- A host is needed. -/
  | special
  /-- The scheme of files, where a host may be absent. -/
  | file
  /-- Every other scheme. -/
  | other
  deriving DecidableEq, Repr

/-- The class of a scheme in small letters. -/
def schemeClass (scheme : String) : SchemeClass :=
  if scheme ∈ ["http", "https", "ws", "wss", "ftp"] then .special
  else if scheme = "file" then .file
  else .other

/-- Characters that are dropped at the ends. -/
def isEdge (c : Char) : Bool := c.toNat ≤ 0x20

/-- The characters of a text that count. -/
def significant (text : String) : List Char :=
  let cs := text.toList.dropWhile isEdge
  (cs.reverse.dropWhile isEdge).reverse.filter fun c => c ≠ '\t' ∧ c ≠ '\n' ∧ c ≠ '\r'

/-- Splits a scheme in small letters off, with its colon. -/
def splitScheme (cs : List Char) : Option (String × List Char) :=
  match cs with
  | c :: _ =>
    if c.isAlpha then
      let (scheme, rest) := cs.span fun c => c.isAlphanum || c == '+' || c == '-' || c == '.'
      match rest with
      | ':' :: rest => some (String.ofList (scheme.map Char.toLower), rest)
      | _ => none
    else none
  | [] => none

/-- Whether a character is a slash; a backslash counts in special addresses. -/
def isSlash (special : Bool) (c : Char) : Bool := c == '/' || (special && c == '\\')

/-- Whether a character ends the part of an address that names the host. -/
def endsAuthority (special : Bool) (c : Char) : Bool := isSlash special c || c == '?' || c == '#'

/-! ## Numeric hosts -/

/-- Splits at every character `c`; there is always a first part. -/
def splitAt (c : Char) : List Char → List (List Char)
  | [] => [[]]
  | d :: rest =>
    match splitAt c rest with
    | part :: more => if d = c then [] :: part :: more else (d :: part) :: more
    | [] => []

/-- The number of a list of digits of a base. -/
def numberOf (base : Nat) (value : Char → Nat) (cs : List Char) : Nat :=
  cs.foldl (fun n c => base * n + value c) 0

/-- The value of a hexadecimal digit. -/
def hexValue (c : Char) : Nat :=
  if c.isDigit then c.toNat - 48 else c.toLower.toNat - 87

/-- Whether a character is a hexadecimal digit. -/
def isHex (c : Char) : Bool := c.isDigit || ('a' ≤ c && c ≤ 'f') || ('A' ≤ c && c ≤ 'F')

/-- A part of a numeric address, in decimal, octal or hexadecimal digits. -/
def ipv4Number? (cs : List Char) : Option Nat :=
  match cs with
  | [] => none
  | '0' :: 'x' :: digits | '0' :: 'X' :: digits =>
    if digits.all isHex then some (numberOf 16 hexValue digits) else none
  | '0' :: d :: digits =>
    if (d :: digits).all fun c => '0' ≤ c && c ≤ '7' then
      some (numberOf 8 Text.digitValue (d :: digits))
    else none
  | digits => if digits.all Char.isDigit then some (Text.natOfDigits digits) else none

/-- Drops an empty last part of at least two. -/
def dropEmptyLast (parts : List (List Char)) : List (List Char) :=
  match parts.reverse with
  | [] :: rest@(_ :: _) => rest.reverse
  | _ => parts

/-- Whether a host has to be a numeric address. -/
def endsInNumber (host : List Char) : Bool :=
  match (dropEmptyLast (splitAt '.' host)).getLast? with
  | some last => (!last.isEmpty && last.all Char.isDigit) || (ipv4Number? last).isSome
  | none => false

/-- Whether a host is a numeric address of 32 bits, in up to four parts. -/
def isIpv4 (host : List Char) : Bool :=
  let parts := dropEmptyLast (splitAt '.' host)
  match parts.mapM ipv4Number? with
  | none => false
  | some numbers =>
    numbers.length ≤ 4 && numbers.dropLast.all (· ≤ 255) &&
      numbers.getLast?.any (· < Nat.pow 256 (5 - numbers.length))

/-- Whether a part is a decimal number below 256 without leading zeros. -/
def isOctet (cs : List Char) : Bool :=
  !cs.isEmpty && cs.all Char.isDigit && cs.length ≤ 3 && Text.natOfDigits cs ≤ 255 &&
    (cs.length == 1 || cs.head? != some '0')

/-- The number of 16-bit groups of one side of an address of 128 bits; only the last part of the
whole address may be written as four octets. -/
def groups? (last : Bool) : List (List Char) → Option Nat
  | [] => some 0
  | [part] =>
    if !part.isEmpty && part.length ≤ 4 && part.all isHex then some 1
    else
      let octets := splitAt '.' part
      if last && octets.length == 4 && octets.all isOctet then some 2 else none
  | part :: rest =>
    if !part.isEmpty && part.length ≤ 4 && part.all isHex then (groups? last rest).map (· + 1)
    else none

/-- Splits at the first pair of colons. -/
def splitGap : List Char → Option (List Char × List Char)
  | [] => none
  | ':' :: ':' :: rest => some ([], rest)
  | c :: rest => (splitGap rest).map fun (before, after) => (c :: before, after)

/-- The parts of one side, of which there are none if it is empty. -/
def sideParts (cs : List Char) : List (List Char) := if cs.isEmpty then [] else splitAt ':' cs

/-- Whether a text is an address of 128 bits. -/
def isIpv6 (cs : List Char) : Bool :=
  match splitGap cs with
  | none => groups? true (splitAt ':' cs) == some 8
  | some (before, after) =>
    match groups? false (sideParts before), groups? true (sideParts after) with
    | some m, some n => m + n ≤ 7
    | _, _ => false

/-! ## Named hosts -/

/-- The bytes of a text in which percent signs with two digits stand for bytes. -/
def percentDecode : List Char → List UInt8
  | '%' :: a :: b :: rest =>
    if isHex a && isHex b then (16 * hexValue a + hexValue b).toUInt8 :: percentDecode rest
    else '%'.toNat.toUInt8 :: percentDecode (a :: b :: rest)
  | c :: rest => (String.singleton c).toUTF8.toList ++ percentDecode rest
  | [] => []

/-- Characters that no host has. -/
def isForbiddenInHost (c : Char) : Bool :=
  c.toNat == 0 ||
    c ∈ [' ', '#', '/', ':', '<', '>', '?', '@', '[', '\\', ']', '^', '|', '\t', '\n', '\r']

/-- Characters that no named host has. -/
def isForbiddenInDomain (c : Char) : Bool :=
  isForbiddenInHost c || c.toNat < 0x20 || c == '%' || (0x7F ≤ c.toNat && c.toNat < 0xA1) ||
    c.toNat == 0xFFFD || (0x2000 ≤ c.toNat && c.toNat ≤ 0x200A) || c.toNat == 0x2028 ||
    c.toNat == 0x2029 || c.toNat == 0x202F || c.toNat == 0x205F || c.toNat == 0x3000 ||
    (0xE000 ≤ c.toNat && c.toNat ≤ 0xF8FF)

/-- Whether a label claims to be encoded but holds nothing that needs it. -/
def isVoidLabel (label : List Char) : Bool :=
  match label.map Char.toLower with
  | 'x' :: 'n' :: '-' :: '-' :: rest => rest.isEmpty || rest.getLast? == some '-'
  | _ => false

/-- Checks the host of a special address. -/
def checkHost (host : List Char) : Except Fault Unit :=
  match host with
  | '[' :: rest =>
    if rest.getLast? == some ']' && isIpv6 rest.dropLast then .ok () else .error .invalidHost
  | _ =>
    match String.fromUTF8? ⟨(percentDecode host).toArray⟩ with
    | none => .error .invalidHost
    | some name =>
      let cs := name.toList
      if cs.isEmpty then .error .emptyHost
      else if cs.any isForbiddenInDomain then .error .invalidHost
      else if (splitAt '.' cs).any isVoidLabel then .error .invalidHost
      else if endsInNumber cs && !isIpv4 cs then .error .invalidHost
      else .ok ()

/-- Checks the host of an address of another scheme. -/
def checkOpaqueHost (host : List Char) : Except Fault Unit :=
  match host with
  | '[' :: rest =>
    if rest.getLast? == some ']' && isIpv6 rest.dropLast then .ok () else .error .invalidHost
  | _ => if host.any isForbiddenInHost then .error .invalidHost else .ok ()

/-- Checks a port. -/
def checkPort (port : List Char) : Except Fault Unit :=
  if port.all Char.isDigit && Text.natOfDigits port ≤ 65535 then .ok () else .error .invalidPort

/-- Splits at the first colon outside brackets. -/
def splitPort (inside : Bool) : List Char → List Char × Option (List Char)
  | [] => ([], none)
  | c :: rest =>
    if c == ':' && !inside then ([], some rest)
    else
      let inside := c == '[' || (inside && c != ']')
      let (host, port) := splitPort inside rest
      (c :: host, port)

/-- What follows the last at sign. -/
def afterUser (cs : List Char) : List Char := (cs.reverse.takeWhile (· != '@')).reverse

/-- Checks the part of an address that names the host. -/
def checkAuthority (special : Bool) (authority : List Char) : Except Fault Unit := do
  let (host, port) := splitPort false (afterUser authority)
  if host.isEmpty && (special || port.isSome || authority.contains '@') then throw .emptyHost
  if special then checkHost host else checkOpaqueHost host
  match port with
  | some port => checkPort (if special then port else port.takeWhile (· != '\\'))
  | none => return ()

/-- Whether a host is the letter of a drive. -/
def isDrive : List Char → Bool
  | [c, d] => c.isAlpha && (d == ':' || d == '|')
  | _ => false

/-- Checks the host of a file's address. -/
def checkFile : List Char → Except Fault Unit
  | a :: b :: rest =>
    if isSlash true a && isSlash true b then
      let host := rest.takeWhile fun c => !endsAuthority true c
      if host.isEmpty || isDrive host then .ok () else checkHost host
    else .ok ()
  | _ => .ok ()

/-- The scheme of an address, in small letters. -/
def scheme (text : String) : Except Fault String :=
  match splitScheme (significant text) with
  | none => .error .noScheme
  | some (name, rest) => do
    match schemeClass name with
    | .special =>
      checkAuthority true ((rest.dropWhile (isSlash true)).takeWhile fun c => !endsAuthority true c)
    | .file => checkFile rest
    | .other =>
      match rest with
      | '/' :: '/' :: rest =>
        let authority := rest.takeWhile fun c => !endsAuthority false c
        if authority.isEmpty then pure () else checkAuthority false authority
      | _ => pure ()
    return name

end WorkflowEngine.Http.Url
