import TimeJournal.Location.Host
import TimeJournal.Text.Hexadecimal
import TimeJournal.Text.Utf8

/-! # URI references

The path of a URI reference: `Uri.path?` cuts off the scheme, the authority, the query, the fragment
and, for the schemes that have them, the parameters of the last segment. `percentDecode` replaces
the escapes in a text by the characters that they encode.

There is no path where the authority may not be one (`Uri.checkAuthority`): its brackets do not
enclose a host, or it would be cut elsewhere if its characters were normalized. -/

namespace TimeJournal.Location

/-- Why a URI reference has no path: the brackets of its authority do not enclose its host, they
enclose a text that is no host, or a character of the authority hides a delimiter. -/
inductive UriFault where
  | misplacedBracket
  | host (fault : HostFault)
  | hiddenDelimiter (authority : List Char)
  deriving DecidableEq, Repr

/-- The wording of a fault. -/
def UriFault.message : UriFault → String
  | .misplacedBracket => "Invalid IPv6 URL"
  | .host fault => fault.message
  | .hiddenDelimiter authority =>
    let shown := String.ofList authority
    s!"netloc '{shown}' contains invalid characters under NFKC normalization"

namespace Uri

/-! ### Parts of a reference -/

/-- Whether a character may stand in a scheme. -/
def isSchemeChar (c : Char) : Bool := c.isAlphanum || c == '+' || c == '-' || c == '.'

/-- The scheme of a reference, in small letters, and what follows its colon. A scheme begins with a
letter; a reference without a scheme has the empty one. -/
def scheme (s : List Char) : List Char × List Char :=
  match s.span (· != ':') with
  | (c :: name, _ :: r) =>
    if c.isAlpha && (c :: name).all isSchemeChar then ((c :: name).map Char.toLower, r) else ([], s)
  | _ => ([], s)

/-- The authority of what follows the scheme, and the rest. -/
def authority : List Char → List Char × List Char
  | '/' :: '/' :: r => r.span fun c => c != '/' && c != '?' && c != '#'
  | s => ([], s)

/-- Whether a text may stand between the brackets of an authority, or why it may not. -/
def checkHost (host : List Char) : Except UriFault Unit := (Host.check host).mapError .host

/-- Whether the brackets of an authority enclose its host, or why they do not. The host stands
behind the last at sign: an opening bracket is the first character there, and a closing bracket is
the last one or a colon and the port follow it. Where all brackets stand in front of the at sign,
the host is held to the same rule as if they enclosed it. -/
def checkBrackets (s : List Char) : Except UriFault Unit :=
  if s.contains '[' != s.contains ']' then .error .misplacedBracket
  else if !s.contains '[' then .ok ()
  else
    match (s.reverse.takeWhile (· != '@')).reverse with
    | '[' :: r =>
      match r.span (· != ']') with
      | (host, []) | (host, [_]) | (host, _ :: ':' :: _) => checkHost host
      | _ => .error .misplacedBracket
    | hostAndPort =>
      if hostAndPort.contains '[' then .error .misplacedBracket
      else checkHost (hostAndPort.takeWhile (· != ':'))

/-- The characters beyond ASCII whose compatibility normalization (NFKC) is a slash, a question mark,
a number sign, an at sign or a colon, or has one of these in it. -/
def delimiterLike : List Nat :=
  [0x2047, 0x2048, 0x2049, 0x2100, 0x2101, 0x2105, 0x2106, 0x2A74, 0xFE13, 0xFE16, 0xFE55, 0xFE56,
    0xFE5F, 0xFE6B, 0xFF03, 0xFF0F, 0xFF1A, 0xFF1F, 0xFF20]

/-- Whether a character that is no delimiter has one in its normalization. -/
def hidesDelimiter (c : Char) : Bool := delimiterLike.contains c.toNat

/-- Whether a text may be an authority, or why it may not. Its brackets are looked at first. -/
def checkAuthority (s : List Char) : Except UriFault Unit :=
  match checkBrackets s with
  | .error fault => .error fault
  | .ok () => if s.any hidesDelimiter then .error (.hiddenDelimiter s) else .ok ()

/-- The schemes whose last segment may have parameters. -/
def schemesWithParameters : List String :=
  ["", "ftp", "hdl", "prospero", "http", "imap", "https", "shttp", "rtsp", "rtsps", "rtspu", "sip",
    "sips", "mms", "sftp", "tel"]

/-- A path without the parameters of its last segment. -/
def dropParameters (s : List Char) : List Char :=
  let last := (s.reverse.takeWhile (· != '/')).reverse
  s.take (s.length - last.length) ++ last.takeWhile (· != ';')

/-- Whether a character is removed wherever it stands: a tab or a line terminator. -/
def isIgnored (c : Char) : Bool := c == '\t' || c == '\r' || c == '\n'

/-- Whether a character is removed at the front: a control character or a space. -/
def isControlOrSpace (c : Char) : Bool := c.toNat ≤ 0x20

/-- The path of a reference, its escapes left as they are. -/
def path? (s : List Char) : Except UriFault (List Char) :=
  let clean := (s.dropWhile isControlOrSpace).filter fun c => !isIgnored c
  let (schemeName, afterScheme) := scheme clean
  let (authorityText, afterAuthority) := authority afterScheme
  match checkAuthority authorityText with
  | .error fault => .error fault
  | .ok () =>
    let path := (afterAuthority.takeWhile (· != '#')).takeWhile (· != '?')
    if schemesWithParameters.contains (String.ofList schemeName) then .ok (dropParameters path)
    else .ok path

/-! ### Escapes -/

/-- The bytes of an ASCII text, each escape of a percent sign and two hexadecimal digits replaced by
the byte that it writes. -/
def unescape : List Char → List UInt8
  | [] => []
  | '%' :: a :: b :: r =>
    match Text.hexValue? a, Text.hexValue? b with
    | some high, some low => (16 * high + low).toUInt8 :: unescape r
    | _, _ => '%'.toNat.toUInt8 :: unescape (a :: b :: r)
  | c :: r => c.toNat.toUInt8 :: unescape r

/-- A text with its escapes decoded as UTF-8. The escapes between two characters beyond ASCII are
decoded together; `run` holds the ASCII characters in front of `s`, backwards. -/
def percentDecode.go (run : List Char) : List Char → List Char
  | [] => Text.Utf8.decodeLossy (unescape run.reverse)
  | c :: r =>
    if c.toNat < 0x80 then percentDecode.go (c :: run) r
    else Text.Utf8.decodeLossy (unescape run.reverse) ++ c :: percentDecode.go [] r

/-- A text with its escapes decoded as UTF-8, U+FFFD standing for what is none. -/
def percentDecode (s : List Char) : List Char := percentDecode.go [] s

end Uri

end TimeJournal.Location
