import SglangOmni.Lib.Regex

/-! The units in which a text and a transcript of its speech are compared: words, numbers and single
characters, with the spellings of small numbers made equal. -/

namespace Spoken

open Lib

/-! ### Characters -/

def englishNumbers : List String :=
  ["zero", "one", "two", "three", "four", "five", "six", "seven", "eight", "nine", "ten", "eleven",
    "twelve", "thirteen", "fourteen", "fifteen", "sixteen", "seventeen", "eighteen", "nineteen",
    "twenty"]

def chineseDigits : List (Char × ℕ) :=
  [('零', 0), ('〇', 0), ('一', 1), ('二', 2), ('两', 2), ('三', 3), ('四', 4), ('五', 5), ('六', 6),
    ('七', 7), ('八', 8), ('九', 9)]

def chineseMagnitudes : List (Char × ℕ) := [('十', 10), ('百', 100), ('千', 1000)]

def isChineseDigit (c : Char) : Bool := (chineseDigits.lookup c).isSome

def isChineseMagnitude (c : Char) : Bool := (chineseMagnitudes.lookup c).isSome

def isChineseNumeral (c : Char) : Bool := isChineseDigit c || isChineseMagnitude c

def chineseDigit (c : Char) : ℕ := (chineseDigits.lookup c).getD 0

def chineseMagnitude (c : Char) : ℕ := (chineseMagnitudes.lookup c).getD 0

/-- What the interpreter knows of characters: `isdecimal` and `\d`, the value of a decimal, `isalpha`, `\w`,
`\s` and `casefold`. -/
structure CharacterTables where
  isDecimal : Char → Bool
  decimalValue : Char → ℕ
  isAlpha : Char → Bool
  isWord : Char → Bool
  isSpace : Char → Bool
  casefold : Char → List Char
  word_of_decimal : ∀ c, isDecimal c = true → isWord c = true
  word_of_letter : ∀ c : Char, c.isAlpha = true → isWord c = true
  word_of_chinese : ∀ c, isChineseNumeral c = true → isWord c = true
  casefold_ne_nil : ∀ c, casefold c ≠ []
  casefold_chinese : ∀ c, (∃ d ∈ casefold c, isChineseNumeral d = true) → casefold c = [c]

/-! ### Regular expressions -/

def isNumberSeparator (c : Char) : Bool := ",.-\u2013\u2014".toList.contains c

/-- `WORD_JOINER`, the class `[-.\u2010-\u2015’'/]`. -/
def wordJoiner (c : Char) : Bool :=
  "-.’'/".toList.contains c || (0x2010 ≤ c.toNat && c.toNat ≤ 0x2015)

variable (t : CharacterTables)

def textUnits : Regex Char :=
  .alt (.seq (.plus (.one t.isDecimal))
      (.star (.seq (.one isNumberSeparator) (.plus (.one t.isDecimal)))))
    (.alt (.plus (.one isChineseNumeral))
      (.alt (.seq (.plus (.one Char.isAlpha))
          (.star (.seq (.one wordJoiner) (.plus (.one Char.isAlpha)))))
        (.one fun c => t.isWord c && c != '_')))

def trailingPunctuation : Regex Char := .star (.one fun c => !t.isWord c && !t.isSpace c)

/-! ### Numbers -/

def digitsOf (n : ℕ) : List Char := (Nat.repr n).toList

def isDecimalText (token : List Char) : Bool := token != [] && token.all t.isDecimal

def intOf (token : List Char) : ℕ := token.foldl (fun n c => 10 * n + t.decimalValue c) 0

/-- The variables of the loop in `chinese_number`. -/
structure ChineseNumber where
  number : ℕ := 0
  digit : ℕ := 0
  previousMagnitude : ℕ := 10000
  afterDigit : Bool := false
  isNumber : Bool := true

def ChineseNumber.read (s : ChineseNumber) (c : Char) : ChineseNumber :=
  if isChineseDigit c then
    { s with
      isNumber := s.isNumber && (!s.afterDigit || s.digit == 0)
      digit := chineseDigit c
      afterDigit := true }
  else
    let magnitude := chineseMagnitude c
    { isNumber := s.isNumber && (decide (magnitude < s.previousMagnitude) &&
        (s.afterDigit || (c == '十' && s.number == 0)))
      number := s.number + (if s.digit = 0 then 1 else s.digit) * magnitude
      digit := 0
      previousMagnitude := magnitude
      afterDigit := false }

def chineseNumber (token : List Char) : List Char :=
  let s := token.foldl ChineseNumber.read {}
  if s.isNumber then digitsOf (s.number + s.digit) else token

def normalizedNumber (token : List Char) : List Char :=
  if isDecimalText t token then
    let number := intOf t token
    if number < englishNumbers.length then (englishNumbers.getD number "").toList
    else digitsOf number
  else token

/-! ### Units -/

structure NormalizedUnit where
  text : List Char
  endChars : ℕ
  hasJoiner : Bool := false
  isComplete : Bool := true
  deriving DecidableEq, Repr

def digitUnit (start : ℕ) (c : Char) (index : ℕ) : NormalizedUnit :=
  { text := normalizedNumber t (digitsOf (chineseDigit c)), endChars := start + index + 1 }

/-- The digits up to `十` follow one another from the first to nine, as in counting aloud. -/
def countsToTen (token : List Char) : Bool :=
  token.getLast? == some '十' && decide (2 < token.length) && token.dropLast.all isChineseDigit &&
    token.dropLast.map chineseDigit ==
      (List.range 10).drop (chineseDigit (token.head?.getD '零'))

def unitsOfMatch (start : ℕ) (matched : List Char) : List NormalizedUnit :=
  let token := matched.flatMap t.casefold
  let stop := start + matched.length
  if isDecimalText t token then [{ text := normalizedNumber t token, endChars := stop }]
  else if token.all isChineseDigit then token.zipIdx.map fun (c, index) => digitUnit t start c index
  else if countsToTen token then
    (token.dropLast.zipIdx.map fun (c, index) => digitUnit t start c index) ++
      [{ text := "ten".toList, endChars := stop }]
  else if token.all isChineseNumeral then
    [{ text := normalizedNumber t (chineseNumber token), endChars := stop }]
  else
    let hasJoiner := token.any wordJoiner && t.isAlpha (token.head?.getD '_')
    [{ text := if hasJoiner then token.filter (fun c => !wordJoiner c) else token
       endChars := stop
       hasJoiner := hasJoiner }]

def normalizedUnits (text : List Char) : List NormalizedUnit :=
  ((textUnits t).finditer 0 text).flatMap fun (start, matched) => unitsOfMatch t start matched

end Spoken
