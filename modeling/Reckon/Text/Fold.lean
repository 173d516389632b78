import Reckon.Text.Utf8

/-!
# Names in any case

Names of settings and of fields in a request are ASCII words that may be written in any case.  Besides
its two forms in ASCII a letter may have a third one: the long s and the Kelvin sign are forms of `s`
and `k`.
-/

namespace Reckon

/-- The lower case form of a character among the forms of ASCII letters. -/
def foldChar (c : Char) : Char :=
  if c.toNat = 0x17F then 's'
  else if c.toNat = 0x212A then 'k'
  else c.toLower

/-- Whether a text is an ASCII word in lower case, whatever the case it is written in. -/
def matchesName (name text : Bytes) : Bool :=
  Utf8.ofChars ((Utf8.chars text).map foldChar) = name

end Reckon
