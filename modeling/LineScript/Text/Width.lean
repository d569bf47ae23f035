import LineScript.Text.Width.Emoji
import LineScript.Text.Width.Ligature

/-!
# Display width

The number of columns that a text takes in a table. A text is measured from its end to its start,
because what a character takes depends on what follows it: a selector changes its style, and a
letter or an emoji may be shown as one sign with the next. Everything else takes the columns of its
characters.
-/
namespace LineScript.Text

inductive Style where
  | text
  | emoji
  /-- A quotation mark as wide as an East Asian character. -/
  | wide
deriving DecidableEq, Repr

def selector? (c : Char) : Option Style :=
  if c.toNat = 0xfe0e then some .text
  else if c.toNat = 0xfe0f then some .emoji
  else if c.toNat = 0xfe01 then some .wide
  else none

def isJoiner (c : Char) : Bool :=
  c.toNat == 0x200d

def isQuotationMark (c : Char) : Bool :=
  isInside [0x2018, 0x201a, 0x201c, 0x201e] c

/-- A letter that can be one sign with a letter before it. -/
inductive Letter where
  | hebrewLamed
  | bugineseYa
  /-- The vowel sign I, a joiner and the letter YA. -/
  | bugineseVowelYa
  | tifinagh
  /-- The consonant joiner and a consonant. -/
  | tifinaghJoined
  | lisuTone
  | turkicI
  | khmer
deriving DecidableEq, Repr

/-- How a text begins, as far as the character before it can join it. -/
inductive Opening where
  | other
  | lineFeed
  | emoji
  | skinTone
  | flagLetters (count : Nat)
  | joinedEmoji
  | joinedKeycap
  | joinedFlagLetters (count : Nat)
  /-- Tags up to the end tag, a joiner and an emoji. The digits stand before the letters. -/
  | joinedTags (letters digits : Nat)
  | kiratRaiE
  | kiratRaiAi
  | arabicAlef
  /-- A letter, and before it perhaps a joiner. -/
  | letter (l : Letter) (joined : Bool)
deriving DecidableEq, Repr

namespace Opening

/-- How a text begins with a character that joins nothing behind it. -/
def ofChar (c : Char) : Opening :=
  if c.toNat ≤ 0xa0 then if c = '\n' then lineFeed else other
  else if c.toNat = 0x5dc then letter .hebrewLamed false
  else if isAlef c then arabicAlef
  else if isKhmerBelow c then letter .khmer false
  else if c.toNat = 0x1a10 then letter .bugineseYa false
  else if isTifinaghConsonant c then letter .tifinagh false
  else if isLisuSecondTone c then letter .lisuTone false
  else if c.toNat = 0x10c03 then letter .turkicI false
  else if c.toNat = 0x16d67 then kiratRaiE
  else if c.toNat = 0x16d68 then kiratRaiAi
  else if isSkinTone c then skinTone
  else if isFlagLetter c then flagLetters 1
  else if isEmoji c then emoji
  else other

/-- What is left of an opening behind a selector that the character before it does not take. -/
def passed : Opening → Opening
  | arabicAlef => arabicAlef
  | letter l joined => letter l joined
  | _ => other

def styled (style : Style) : Opening → Opening
  | joinedEmoji => if style = .emoji then joinedEmoji else other
  | joinedKeycap => if style = .emoji then joinedKeycap else other
  | opening => opening.passed

/-- An emoji with the emoji selector is a part of the joined emoji. -/
def continuesEmoji : Opening → Bool
  | joinedEmoji | joinedKeycap => true
  | _ => false

end Opening

def joinLetter (c : Char) : Letter → Bool → Option (Int × Opening)
  | .hebrewLamed, joined => if joined && c.toNat == 0x5d0 then some (0, .other) else none
  | .bugineseYa, joined =>
    if joined && c.toNat == 0x1a17 then some (0, .letter .bugineseVowelYa true) else none
  | .bugineseVowelYa, _ => if c.toNat = 0x1a15 then some (0, .other) else none
  | .tifinagh, joined =>
    if c.toNat = 0x2d7f then some (1, .letter .tifinaghJoined true)
    else if joined && isTifinaghConsonant c then some (0, .other)
    else none
  | .tifinaghJoined, _ => if isTifinaghConsonant c then some (-1, .other) else none
  | .lisuTone, _ => if isLisuFirstTone c then some (0, .other) else none
  | .turkicI, joined => if joined && c.toNat == 0x10c32 then some (0, .other) else none
  | .khmer, _ => if c.toNat = 0x17d2 then some (-1, .other) else none

def joinEmoji (c : Char) : Option (Int × Opening) :=
  if c.toNat = 0x20e3 then some (0, .joinedKeycap)
  else if isFlagLetter c then some (1, .joinedFlagLetters 1)
  else if isSkinTone c then some (0, .skinTone)
  else if c.toNat = 0xe007f then some (0, .joinedTags 0 0)
  else if isEmoji c then some (0, .emoji)
  else none

/-- The columns that a character adds to the tags behind it. A flag takes the tags of three to six
letters, or of three digits and up to four letters. -/
def joinTags (c : Char) (letters digits : Nat) : Option (Int × Opening) :=
  if isTagLetter c ∧ digits = 0 ∧ letters < 6 then some (0, .joinedTags (letters + 1) 0)
  else if isTagDigit c ∧ digits = 0 ∧ letters ≤ 4 then some (0, .joinedTags letters 1)
  else if isTagDigit c ∧ 0 < digits ∧ digits < 3 then some (0, .joinedTags letters (digits + 1))
  else if c.toNat = 0x1f3f4 ∧ (digits = 3 ∨ digits = 0 ∧ 3 ≤ letters) then some (0, .emoji)
  else none

/-- The columns that a character adds to the text that it joins, and how the text begins then;
`none` if it does not join the text. -/
def join (c : Char) : Opening → Option (Int × Opening)
  | .arabicAlef =>
    if isLam c then some (0, .other)
    else if isArabicMark c then some (0, .arabicAlef)
    else none
  | .letter l joined =>
    if isJoiner c then some (0, .letter l true)
    else if isSilentMark c then some (0, .letter l joined)
    else joinLetter c l joined
  | .kiratRaiE =>
    if c.toNat = 0x16d63 ∨ c.toNat = 0x16d69 then some (0, .other)
    else if c.toNat = 0x16d67 then some (0, .kiratRaiAi)
    else if c.toNat = 0x16d68 then some (1, .kiratRaiE)
    else none
  | .kiratRaiAi => if c.toNat = 0x16d63 then some (0, .other) else none
  | .emoji => if isJoiner c then some (0, .joinedEmoji) else none
  | .skinTone =>
    if takesSkinTone c then some (0, .emoji)
    else if isJoiner c then some (0, .joinedEmoji)
    else none
  | .flagLetters count =>
    if isFlagLetter c then some (1, .flagLetters (count + 1))
    else if isJoiner c ∧ 2 ≤ count then some (0, .joinedEmoji)
    else none
  | .joinedEmoji => joinEmoji c
  | .joinedFlagLetters count =>
    if isFlagLetter c then
      some (if count % 2 = 1 then -1 else 3, .joinedFlagLetters (count + 1))
    else if isJoiner c ∧ 2 ≤ count then some (0, .joinedEmoji)
    else none
  | .joinedTags letters digits => joinTags c letters digits
  | .other | .lineFeed | .joinedKeycap => none

structure Ahead where
  opening : Opening := .other
  style : Option Style := none
deriving DecidableEq, Repr

/-- The columns of a character before a text. A carriage return and a line feed count as one. -/
def measure (c : Char) (ahead : Ahead) : Int × Ahead :=
  let opening := if ahead.style.isSome then ahead.opening.passed else ahead.opening
  if ahead.style = some .emoji ∧ takesEmojiStyle c then
    (if ahead.opening.continuesEmoji then 0 else 2, { opening := .emoji })
  else if c = '\r' ∧ opening = .lineFeed then (0, {})
  else if c.toNat ≤ 0xa0 then (1, { opening := .ofChar c })
  else if ahead.style = some .text ∧ takesTextStyle c then (1, {})
  else if ahead.style = some .wide ∧ isQuotationMark c then (2, {})
  else
    match selector? c with
    | some style => (0, { opening := opening.styled style, style := some style })
    | none =>
      match join c opening with
      | some (columns, opening) => (columns, { opening := opening })
      | none => (charWidth c, { opening := .ofChar c })

def measured (s : List Char) : Int × Ahead :=
  s.foldr (fun c (columns, ahead) =>
    let (more, ahead) := measure c ahead
    (columns + more, ahead)) (0, {})

def width (s : String) : Nat :=
  (measured s.toList).1.toNat

end LineScript.Text
