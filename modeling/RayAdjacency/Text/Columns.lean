import RayAdjacency.Text.CharClass

/-!
# Columns of a text

The number of columns that a text takes on a terminal. Most characters take one, ideographs and
emoji two, combining marks none. Some characters are drawn together with their neighbours: an emoji
with its skin tone, emoji around a joiner, two letters that spell a flag, a line break of two
characters, the ligatures of a few scripts. A character is therefore measured from the end of the
text on, by what follows it.
-/

namespace RayAdjacency.Columns

open CharClass (within)

/-- The last part of a ligature, for the characters before it. -/
inductive LigatureTail where
  /-- Hebrew lamed, which joins an alef. -/
  | lamed
  /-- Buginese ya, which joins the vowels below. -/
  | ya
  /-- Buginese vowel sign i with a joined ya. -/
  | vowelYa
  /-- A Tifinagh consonant. -/
  | consonant
  /-- A Tifinagh consonant after the consonant joiner. -/
  | joinedConsonant
  /-- A second Lisu tone letter. -/
  | tone
  /-- Old Turkic Orkhon i, which joins an ec. -/
  | orkhonI
  /-- A Khmer letter with a subscript form. -/
  | subscript
deriving Repr, DecidableEq

/-- What a character stands before, as far as the two may be drawn together. -/
inductive Tail where
  /-- Nothing of interest. -/
  | plain
  /-- A line feed. -/
  | lineFeed
  /-- An emoji. -/
  | emoji
  /-- A skin tone. -/
  | skinTone
  /-- So many flag letters in a row. -/
  | flagLetters (count : Nat)
  /-- A joiner and an emoji. -/
  | joinedEmoji
  /-- The frame of a key, a joiner and an emoji. -/
  | joinedKey
  /-- So many flag letters in a row, a joiner and an emoji. -/
  | joinedFlag (count : Nat)
  /-- Tags of a region, digits before letters, then the end of the tags, a joiner and an emoji. -/
  | joinedTags (digits letters : Nat)
  /-- An Arabic letter of the shape of alef. -/
  | alef
  /-- The Kirat Rai vowel sign e. -/
  | vowelE
  /-- The Kirat Rai vowel sign ai. -/
  | vowelAi
  /-- The last part of a ligature, and whether a joiner stands before it. -/
  | ligature (tail : LigatureTail) (joined : Bool)
deriving Repr, DecidableEq

/-- What follows a character: selectors of its form, and what stands after them. -/
structure Following where
  tail : Tail := .plain
  /-- The character is asked to be shown as an emoji. -/
  asEmoji : Bool := false
  /-- The character is asked to be shown as text. -/
  asText : Bool := false
  /-- The character is asked to be shown in its wide form. -/
  asWide : Bool := false
deriving Repr, DecidableEq

/-- The columns that a character adds, and what the character before it then stands before. -/
abbrev Measure := Int × Following

/-- The zero-width joiner. -/
def joiner : Char := Char.ofNat 0x200d

/-- The columns of a character on its own. -/
def ofChar (c : Char) : Nat :=
  if within CharClass.zeroWidth c then 0
  else if c.toNat == 0x17d8 then 3
  else if within CharClass.wide c then 2
  else 1

namespace Tail

/-- What a character is for the character before it. -/
def ofChar (c : Char) : Tail :=
  if within CharClass.emoji c then .emoji
  else if within CharClass.skinTone c then .skinTone
  else if within CharClass.flagLetter c then .flagLetters 1
  else if within CharClass.alef c then .alef
  else if c.toNat == 0x5dc then .ligature .lamed false
  else if within CharClass.subscribed c then .ligature .subscript false
  else if c.toNat == 0x1a10 then .ligature .ya false
  else if within CharClass.tifinagh c then .ligature .consonant false
  else if within CharClass.lowTone c then .ligature .tone false
  else if c.toNat == 0x10c03 then .ligature .orkhonI false
  else if c.toNat == 0x16d67 then .vowelE
  else if c.toNat == 0x16d68 then .vowelAi
  else .plain

/-- Whether marks that are not shown may stand between the tail and what it is drawn with. -/
def isTransparent : Tail → Bool
  | alef | ligature .. => true
  | _ => false

/-- Whether the tail joins the emoji that a selector asks for. -/
def joinsStyled : Tail → Bool
  | joinedEmoji | joinedKey => true
  | _ => false

end Tail

/-- The measure of a character before the last part of a ligature, if it belongs to it. -/
def LigatureTail.attach (c : Char) : LigatureTail → Bool → Option (Int × Tail)
  | lamed, true => if c.toNat == 0x5d0 then some (0, .plain) else none
  | ya, true => if c.toNat == 0x1a17 then some (0, .ligature .vowelYa true) else none
  | vowelYa, _ => if c.toNat == 0x1a15 then some (0, .plain) else none
  | consonant, joined =>
    if c.toNat == 0x2d7f then some (1, .ligature .joinedConsonant true)
    else if joined && within CharClass.tifinagh c then some (0, .plain)
    else none
  | joinedConsonant, _ => if within CharClass.tifinagh c then some (-1, .plain) else none
  | tone, _ => if within CharClass.highTone c then some (0, .plain) else none
  | orkhonI, true => if c.toNat == 0x10c32 then some (0, .plain) else none
  | subscript, _ => if c.toNat == 0x17d2 then some (-1, .plain) else none
  | _, false => none

namespace Tail

/-- The measure of a character before tags of a region that end in a joined emoji. The tags of a
flag are three to six letters, or three digits and up to four letters. -/
def attachTags (c : Char) (digits letters : Nat) : Option (Int × Tail) :=
  if within CharClass.tagLetter c && digits == 0 && letters < 6 then
    some (0, .joinedTags 0 (letters + 1))
  else if within CharClass.tagDigit c && digits < 3 && letters ≤ 4 then
    some (0, .joinedTags (digits + 1) letters)
  else if c.toNat == 0x1f3f4 && (digits == 3 || (digits == 0 && 3 ≤ letters)) then
    some (0, .emoji)
  else none

/-- The measure of a character that is drawn together with what follows it. Two flag letters take
two columns, and none where they are joined to an emoji. -/
def attach (c : Char) : Tail → Option (Int × Tail)
  | plain | lineFeed => none
  | emoji => if c == joiner then some (0, joinedEmoji) else none
  | skinTone =>
    if within CharClass.skinToned c then some (0, emoji)
    else if c == joiner then some (0, joinedEmoji)
    else none
  | flagLetters count =>
    if within CharClass.flagLetter c then some (1, flagLetters (count + 1))
    else if c == joiner && 2 ≤ count then some (0, joinedEmoji)
    else none
  | joinedEmoji =>
    if within CharClass.skinTone c then some (0, skinTone)
    else if within CharClass.emoji c then some (0, emoji)
    else if within CharClass.flagLetter c then some (1, joinedFlag 1)
    else if c.toNat == 0x20e3 then some (0, joinedKey)
    else if c.toNat == 0xe007f then some (0, joinedTags 0 0)
    else none
  | joinedKey => none
  | joinedFlag count =>
    if within CharClass.flagLetter c then
      some (if count % 2 == 1 then -1 else 3, joinedFlag (count + 1))
    else if c == joiner && 2 ≤ count then some (0, joinedEmoji)
    else none
  | joinedTags digits letters => attachTags c digits letters
  | alef =>
    if within CharClass.lam c then some (0, plain)
    else if within CharClass.zeroWidth c && !within CharClass.joinBreaking c then some (0, alef)
    else none
  | vowelE =>
    if c.toNat == 0x16d63 || c.toNat == 0x16d69 then some (0, plain)
    else if c.toNat == 0x16d67 then some (0, vowelAi)
    else if c.toNat == 0x16d68 then some (1, vowelE)
    else none
  | vowelAi => if c.toNat == 0x16d63 then some (0, plain) else none
  | ligature tail joined =>
    if c == joiner then some (0, ligature tail true)
    else if within CharClass.ignorableMark c then some (0, ligature tail joined)
    else tail.attach c joined

end Tail

namespace Following

/-- What follows once selectors have been seen that do not apply to the character before them: all
of it if marks are transparent to the tail, otherwise nothing. -/
def transparent (next : Following) : Following := if next.tail.isTransparent then next else {}

/-- What follows a selector of the emoji form. -/
def selectEmoji (next : Following) : Following :=
  if next.tail.joinsStyled then { next with asEmoji := true }
  else { next.transparent with asEmoji := true }

/-- What follows a selector of the text form. -/
def selectText (next : Following) : Following := { next.transparent with asText := true }

/-- What follows a selector of the wide form. -/
def selectWide (next : Following) : Following := { next.transparent with asWide := true }

/-- What follows a character that has no emoji form. -/
def withoutEmoji (next : Following) : Following :=
  if next.asEmoji then { next.transparent with asEmoji := false } else next

end Following

/-- The measure of a character of the first 161, the controls included. -/
def ofBasic (c : Char) (tail : Tail) : Measure :=
  if c == '\n' then (1, { tail := .lineFeed })
  else if c == '\r' && tail == .lineFeed then (0, {})
  else (1, {})

/-- The measure of a character that is no selector and that no selector applies to. -/
def ofPlain (c : Char) (tail : Tail) : Measure :=
  match tail.attach c with
  | some (columns, tail) => (columns, { tail })
  | none => (ofChar c, { tail := .ofChar c })

/-- The measure of a character by what follows it. -/
def step (c : Char) (next : Following) : Measure :=
  if next.asEmoji && within CharClass.emojiStyled c then
    (if next.tail.joinsStyled then 0 else 2, { tail := .emoji })
  else
    let next := next.withoutEmoji
    if c.toNat ≤ 0xa0 then ofBasic c next.tail
    else if c.toNat == 0xfe0f then (0, next.selectEmoji)
    else if c.toNat == 0xfe0e then (0, next.selectText)
    else if c.toNat == 0xfe01 then (0, next.selectWide)
    else if next.asText && within CharClass.textStyled c then (1, {})
    else if next.asWide && within CharClass.quote c then (2, {})
    else ofPlain c next.tail

/-- The columns of characters in a row, and what a character before them would stand before. -/
def ofChars (chars : List Char) : Measure :=
  chars.foldr (fun c (columns, next) ↦ let (more, next) := step c next; (columns + more, next))
    (0, {})

/-- The columns of a text on a terminal. -/
def ofText (text : String) : Nat := (ofChars text.toList).1.toNat

/-- Ideographs take two columns each. -/
example : (ofChars ['日', '本', '語']).1 = 6 := by decide +kernel

/-- Combining marks take none. -/
example : (ofChars ['e', Char.ofNat 0x301, 'e', Char.ofNat 0x301]).1 = 2 := by decide +kernel

/-- A family of emoji around joiners takes two columns, as does a heart shown as an emoji. -/
example : (ofChars ['👩', joiner, '👩', joiner, '👧']).1 = 2
    ∧ (ofChars ['❤', Char.ofNat 0xfe0f]).1 = 2 ∧ (ofChars ['❤']).1 = 1 := by decide +kernel

/-- A quotation mark in its wide form takes two columns. -/
example : (ofChars [Char.ofNat 0x2018, Char.ofNat 0xfe01]).1 = 2 := by decide +kernel

end RayAdjacency.Columns
