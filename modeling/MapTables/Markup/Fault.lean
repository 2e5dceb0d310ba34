import MapTables.Text.Quoted
import MapTables.Text.Utf8

/-!
# Faults of markup

Why octets are no markup, or cannot be read at all, with the words for it. Positions
inside a tag count from just after its `<`; ranges inside a value from its first octet.
-/

namespace MapTables

inductive EscapeFault where
  /-- The reference that starts here is not closed before the next one or the end. -/
  | unterminated (start length : Nat)
  | unknownName (start stop : Nat) (name : String)
  /-- The reference between these octets is to the null character. -/
  | null (start stop : Nat)
  | tooLongDecimal
  | tooLongHexadecimal
  | badDecimal (octet : UInt8)
  | badHexadecimal (octet : UInt8)
  | noCharacter (number : Nat)
deriving DecidableEq, Repr

inductive AttributeFault where
  | expectedEquals (position : Nat)
  | duplicated (position previous : Nat)
  | expectedValue (position : Nat)
  | unquotedValue (position : Nat)
  | expectedQuote (position : Nat) (quote : UInt8)
deriving DecidableEq, Repr

inductive Construct where
  | declaration
  | bang
  | comment
  | cdata
  | doctype
deriving DecidableEq, Repr

inductive MarkupFault where
  /-- An end tag that is not that of the innermost open element. -/
  | mismatchedEnd (expected found : String)
  | unfinished (construct : Construct)
  | unexpectedBang (octet : UInt8)
  | emptyDoctype
  | attribute (fault : AttributeFault)
  | malformedText (fault : Utf8.Fault)
  | escape (fault : EscapeFault)
deriving DecidableEq, Repr

inductive ReadFault where
  | markup (position : Nat) (fault : MarkupFault)
  | unreadable (position : Nat) (reason : String)
  | unknownEncoding (label : String)
deriving DecidableEq, Repr

def octetChar (b : UInt8) : Char := Char.ofNat b.toNat

def EscapeFault.message : EscapeFault → String
  | .unterminated s l =>
    s!"Error while escaping character at range {s}..{l}: Cannot find ';' after '&'"
  | .unknownName s e n =>
    s!"Error while escaping character at range {s}..{e}: Unrecognized escape symbol: " ++ Text.quote n
  | .null s e =>
    s!"Error while escaping character at range {s}..{e}: Null character entity not allowed"
  | .tooLongDecimal => "Cannot convert decimal to utf8"
  | .tooLongHexadecimal => "Cannot convert hexadecimal to utf8"
  | .badDecimal b => s!"'{octetChar b}' is not a valid decimal character"
  | .badHexadecimal b => s!"'{octetChar b}' is not a valid hexadecimal character"
  | .noCharacter n => s!"'{n}' is not a valid codepoint"

def AttributeFault.message : AttributeFault → String
  | .expectedEquals p =>
    s!"position {p}: attribute key must be directly followed by `=` or space"
  | .duplicated p q =>
    s!"position {p}: duplicated attribute, previous declaration at position {q}"
  | .expectedValue p => s!"position {p}: `=` must be followed by an attribute value"
  | .unquotedValue p => s!"position {p}: attribute value must be enclosed in `\"` or `'`"
  | .expectedQuote p q =>
    s!"position {p}: missing closing quote `{octetChar q}` in attribute value"

def Construct.word : Construct → String
  | .declaration => "XmlDecl"
  | .bang => "Bang"
  | .comment => "Comment"
  | .cdata => "CData"
  | .doctype => "DOCTYPE"

namespace MarkupFault

def message : MarkupFault → String
  | .mismatchedEnd expected found => s!"Expecting </{expected}> found </{found}>"
  | .unfinished c => s!"Unexpected EOF during reading {c.word}"
  | .unexpectedBang b =>
    "Only Comment (`--`), CDATA (`[CDATA[`) and DOCTYPE (`DOCTYPE`) nodes can start with a '!'" ++
      s!", but symbol `{octetChar b}` found"
  | .emptyDoctype => "DOCTYPE declaration must not be empty"
  | .attribute f => s!"error while parsing attribute: {f.message}"
  | .malformedText f => s!"Malformed UTF-8 input: {f.message}"
  | .escape f => f.message

def causes : MarkupFault → List String
  | .attribute f => [f.message]
  | .malformedText f => [f.message]
  | .escape f => [f.message]
  | _ => []

end MarkupFault

namespace ReadFault

def message : ReadFault → String
  | .markup p _ => s!"failed to parse XML near byte {p}"
  | .unreadable p _ => s!"failed to read OSM input near byte {p}"
  | .unknownEncoding label => s!"unknown character encoding {Text.quote label}"

def causes : ReadFault → List String
  | .markup _ f => f.message :: f.causes
  | .unreadable _ reason => [reason]
  | .unknownEncoding _ => []

end ReadFault
end MapTables
