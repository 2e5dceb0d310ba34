/-!
# Encodings

The encodings that a text may be written in, under the names of the web's encoding
standard.
-/

namespace MapTables

inductive Encoding where
  | big5
  | eucJp
  | eucKr
  | gbk
  | ibm866
  | iso2022Jp
  | iso8859_10
  | iso8859_13
  | iso8859_14
  | iso8859_15
  | iso8859_16
  | iso8859_2
  | iso8859_3
  | iso8859_4
  | iso8859_5
  | iso8859_6
  | iso8859_7
  | iso8859_8
  | iso8859_8I
  | koi8R
  | koi8U
  | shiftJis
  | utf16BE
  | utf16LE
  | utf8
  | gb18030
  | macintosh
  | replacement
  | windows1250
  | windows1251
  | windows1252
  | windows1253
  | windows1254
  | windows1255
  | windows1256
  | windows1257
  | windows1258
  | windows874
  | macCyrillic
  | userDefined
deriving DecidableEq, Repr

namespace Encoding

def name : Encoding → String
  | .big5 => "Big5"
  | .eucJp => "EUC-JP"
  | .eucKr => "EUC-KR"
  | .gbk => "GBK"
  | .ibm866 => "IBM866"
  | .iso2022Jp => "ISO-2022-JP"
  | .iso8859_10 => "ISO-8859-10"
  | .iso8859_13 => "ISO-8859-13"
  | .iso8859_14 => "ISO-8859-14"
  | .iso8859_15 => "ISO-8859-15"
  | .iso8859_16 => "ISO-8859-16"
  | .iso8859_2 => "ISO-8859-2"
  | .iso8859_3 => "ISO-8859-3"
  | .iso8859_4 => "ISO-8859-4"
  | .iso8859_5 => "ISO-8859-5"
  | .iso8859_6 => "ISO-8859-6"
  | .iso8859_7 => "ISO-8859-7"
  | .iso8859_8 => "ISO-8859-8"
  | .iso8859_8I => "ISO-8859-8-I"
  | .koi8R => "KOI8-R"
  | .koi8U => "KOI8-U"
  | .shiftJis => "Shift_JIS"
  | .utf16BE => "UTF-16BE"
  | .utf16LE => "UTF-16LE"
  | .utf8 => "UTF-8"
  | .gb18030 => "gb18030"
  | .macintosh => "macintosh"
  | .replacement => "replacement"
  | .windows1250 => "windows-1250"
  | .windows1251 => "windows-1251"
  | .windows1252 => "windows-1252"
  | .windows1253 => "windows-1253"
  | .windows1254 => "windows-1254"
  | .windows1255 => "windows-1255"
  | .windows1256 => "windows-1256"
  | .windows1257 => "windows-1257"
  | .windows1258 => "windows-1258"
  | .windows874 => "windows-874"
  | .macCyrillic => "x-mac-cyrillic"
  | .userDefined => "x-user-defined"

def isUtf16 : Encoding → Bool
  | .utf16BE | .utf16LE => true
  | _ => false

end Encoding
end MapTables
