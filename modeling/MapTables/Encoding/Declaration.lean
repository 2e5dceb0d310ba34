import MapTables.Encoding.Label

/-!
# The encoding that a document declares

The first octets of a document tell its encoding: by a mark, by how a `<` is written, or
by the declaration at the very start. A declaration that can be read at all is not
written in UTF-16, whatever it says.
-/

namespace MapTables.Encoding

def ofMark? : Bytes → Option Encoding
  | 0xEF :: 0xBB :: 0xBF :: _ => some .utf8
  | 0xFF :: 0xFE :: _ => some .utf16LE
  | 0xFE :: 0xFF :: _ => some .utf16BE
  | _ => none

/-- The octets before and behind the first place where a word stands. -/
def splitAtWord (word : Bytes) : Bytes → Option (Bytes × Bytes)
  | [] => if word.isEmpty then some ([], []) else none
  | b :: rest =>
    if word.isPrefixOf (b :: rest) then some ([], (b :: rest).drop word.length)
    else (splitAtWord word rest).map fun (before, behind) => (b :: before, behind)

def after? (word : Bytes) (bytes : Bytes) : Option Bytes :=
  if word.isPrefixOf bytes then some (bytes.drop word.length) else none

def quoted? : Bytes → Option Bytes
  | q :: rest =>
    if q = 0x22 ∨ q = 0x27 then
      if rest.contains q then some (rest.takeWhile (· != q)) else none
    else none
  | [] => none

def declaredLabel? (head : Bytes) : Option Bytes := do
  let rest ← after? (Bytes.ofString "<?xml") head
  let (declaration, _) ← splitAtWord (Bytes.ofString "?>") rest
  let (_, rest) ← splitAtWord (Bytes.ofString "encoding") declaration
  let rest ← after? (Bytes.ofString "=") (rest.dropWhile isLabelSpace)
  quoted? (rest.dropWhile isLabelSpace)

def declared? (head : Bytes) : Option Encoding := do
  let e ← ofLabel? (← declaredLabel? head)
  return if e.isUtf16 then .utf8 else e

def sniff (head : Bytes) : Encoding :=
  match ofMark? head with
  | some e => e
  | none =>
    match head with
    | 0x3C :: 0x00 :: _ => .utf16LE
    | 0x00 :: 0x3C :: _ => .utf16BE
    | _ => (declared? head).getD .utf8

end MapTables.Encoding
