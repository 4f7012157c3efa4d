import Mathlib.Data.List.Basic

/-! The text of JSON: what a string literal stands for, which texts are values, and where in the
text of an object the value of a field stands. -/

namespace Fswtch.Lib.JsonText

def hexDigit (ch : Char) : Option Nat :=
  if '0' ≤ ch ∧ ch ≤ '9' then some (ch.toNat - '0'.toNat)
  else if 'a' ≤ ch ∧ ch ≤ 'f' then some (ch.toNat - 'a'.toNat + 10)
  else if 'A' ≤ ch ∧ ch ≤ 'F' then some (ch.toNat - 'A'.toNat + 10)
  else none

def codeUnit (a b c d : Char) : Option Nat := do
  let a ← hexDigit a
  let b ← hexDigit b
  let c ← hexDigit c
  let d ← hexDigit d
  return ((a * 16 + b) * 16 + c) * 16 + d

def shortEscape : Char → Option Char
  | '"' => some '"'
  | '\\' => some '\\'
  | '/' => some '/'
  | 'b' => some '\x08'
  | 'f' => some '\x0c'
  | 'n' => some '\n'
  | 'r' => some '\r'
  | 't' => some '\t'
  | _ => none

def isHighSurrogate (unit : Nat) : Prop := 0xD800 ≤ unit ∧ unit < 0xDC00

def isLowSurrogate (unit : Nat) : Prop := 0xDC00 ≤ unit ∧ unit < 0xE000

inductive Literal : List Char → List Char → Prop
  | nil : Literal [] []
  | plain (ch : Char) (rest text : List Char) (unquoted : ch ≠ '"') (unescaped : ch ≠ '\\')
      (printable : 0x20 ≤ ch.toNat) (later : Literal rest text) : Literal (ch :: rest) (ch :: text)
  | short (letter ch : Char) (rest text : List Char) (stands : shortEscape letter = some ch)
      (later : Literal rest text) : Literal ('\\' :: letter :: rest) (ch :: text)
  | unit (a b c d : Char) (unit : Nat) (rest text : List Char) (digits : codeUnit a b c d = some unit)
      (single : ¬isHighSurrogate unit ∧ ¬isLowSurrogate unit) (later : Literal rest text) :
      Literal ('\\' :: 'u' :: a :: b :: c :: d :: rest) (Char.ofNat unit :: text)
  | pair (a b c d a' b' c' d' : Char) (high low : Nat) (rest text : List Char)
      (digits : codeUnit a b c d = some high) (digits' : codeUnit a' b' c' d' = some low)
      (first : isHighSurrogate high) (second : isLowSurrogate low) (later : Literal rest text) :
      Literal ('\\' :: 'u' :: a :: b :: c :: d :: '\\' :: 'u' :: a' :: b' :: c' :: d' :: rest)
        (Char.ofNat (0x10000 + (high - 0xD800) * 0x400 + (low - 0xDC00)) :: text)

theorem hexDigit_plain {ch : Char} {digit : Nat} (read : hexDigit ch = some digit) : ch ≠ '"' ∧ ch ≠ '\\' := by
  constructor <;> rintro rfl <;> cases read

theorem codeUnit_plain {a b c d : Char} {unit : Nat} (read : codeUnit a b c d = some unit) :
    ∀ ch ∈ [a, b, c, d], ch ≠ '"' ∧ ch ≠ '\\' := by
  simp only [codeUnit, Option.bind_eq_bind, Option.bind_eq_some_iff] at read
  obtain ⟨_, one, _, two, _, three, _, four, _⟩ := read
  simp only [List.forall_mem_cons]
  exact ⟨hexDigit_plain one, hexDigit_plain two, hexDigit_plain three, hexDigit_plain four, nofun⟩

theorem Literal.length_le {literal text : List Char} (stands : Literal literal text) :
    text.length ≤ literal.length := by
  induction stands <;> simp only [List.length_nil, List.length_cons] <;> omega

theorem Literal.length_lt {literal text : List Char} (stands : Literal literal text) (escaped : '\\' ∈ literal) :
    text.length < literal.length := by
  induction stands with
  | nil => cases escaped
  | plain ch rest text unquoted unescaped printable later ih =>
    rcases List.mem_cons.mp escaped with same | inside
    · exact absurd same.symm unescaped
    · exact Nat.succ_lt_succ (ih inside)
  | short letter ch rest text stands later ih =>
    have short := later.length_le
    simp only [List.length_cons]
    omega
  | unit a b c d unit rest text digits single later ih =>
    have short := later.length_le
    simp only [List.length_cons]
    omega
  | pair a b c d a' b' c' d' high low rest text digits digits' first second later ih =>
    have short := later.length_le
    simp only [List.length_cons]
    omega

theorem Literal.eq_of_unescaped {literal text : List Char} (stands : Literal literal text) (unescaped : '\\' ∉ literal) :
    literal = text := by
  induction stands with
  | nil => rfl
  | plain ch rest text unquoted unescapedHere printable later ih =>
    rw [ih fun inside => unescaped (List.mem_cons_of_mem ch inside)]
  | short => exact absurd List.mem_cons_self unescaped
  | unit => exact absurd List.mem_cons_self unescaped
  | pair => exact absurd List.mem_cons_self unescaped

/-- A literal reads as the text it stands for exactly when it escapes nothing. -/
theorem Literal.eq_iff {literal text : List Char} (stands : Literal literal text) : literal = text ↔ '\\' ∉ literal := by
  refine ⟨fun same escaped => ?_, stands.eq_of_unescaped⟩
  have longer := stands.length_lt escaped
  rw [same] at longer
  exact Nat.lt_irrefl _ longer

def Blank (text : List Char) : Prop := ∀ ch ∈ text, ch = ' ' ∨ ch = '\t' ∨ ch = '\n' ∨ ch = '\r'

def Digits (text : List Char) : Prop := text ≠ [] ∧ ∀ ch ∈ text, '0' ≤ ch ∧ ch ≤ '9'

/-- An integer without a leading zero, with a fraction and an exponent that may be absent. -/
inductive Number : List Char → Prop
  | mk (sign whole fraction exponent : List Char) (signed : sign = [] ∨ sign = ['-'])
      (digits : whole = ['0'] ∨ Digits whole ∧ whole.head? ≠ some '0')
      (fractional : fraction = [] ∨ ∃ digits, fraction = '.' :: digits ∧ Digits digits)
      (scaled : exponent = [] ∨ ∃ mark sign digits, exponent = mark :: sign ++ digits ∧ (mark = 'e' ∨ mark = 'E') ∧
        (sign = [] ∨ sign = ['+'] ∨ sign = ['-']) ∧ Digits digits) :
      Number (sign ++ whole ++ fraction ++ exponent)

structure Item where
  lead : List Char
  value : List Char
  trail : List Char

def Item.text (item : Item) : List Char := item.lead ++ item.value ++ item.trail

/-- A member of an object: the literal of its key and the text of its value, between blanks. -/
structure Member where
  lead : List Char
  key : List Char
  mid : List Char
  next : List Char
  value : List Char
  trail : List Char

def Member.text (member : Member) : List Char :=
  member.lead ++ '"' :: member.key ++ '"' :: member.mid ++ ':' :: member.next ++ member.value ++ member.trail

structure Member.Framed (member : Member) : Prop where
  lead : Blank member.lead
  key : ∃ name, Literal member.key name
  mid : Blank member.mid
  next : Blank member.next
  trail : Blank member.trail

inductive Value : List Char → Prop
  | word (text : List Char) (known : text ∈ ["null".toList, "true".toList, "false".toList]) : Value text
  | number (text : List Char) (number : Number text) : Value text
  | string (literal text : List Char) (stands : Literal literal text) : Value ('"' :: literal ++ ['"'])
  | emptyArray (blank : List Char) (isBlank : Blank blank) : Value ('[' :: blank ++ [']'])
  | array (items : List Item) (nonempty : items ≠ []) (framed : ∀ item ∈ items, Blank item.lead ∧ Blank item.trail)
      (values : ∀ item ∈ items, Value item.value) : Value ('[' :: [','].intercalate (items.map Item.text) ++ [']'])
  | emptyObject (blank : List Char) (isBlank : Blank blank) : Value ('\x7b' :: blank ++ ['\x7d'])
  | object (members : List Member) (nonempty : members ≠ []) (framed : ∀ member ∈ members, member.Framed)
      (values : ∀ member ∈ members, Value member.value) :
      Value ('\x7b' :: [','].intercalate (members.map Member.text) ++ ['\x7d'])

/-- The text of an object in which `name` is a string: its literal, what follows the closing
quote, and its value. Of several members of that name the last one counts. -/
inductive StringField (name : List Char) : List Char → List Char → List Char → List Char → Prop
  | mk (lead trail : List Char) (before after : List Member) (own : Member) (literal value : List Char)
      (leading : Blank lead) (trailing : Blank trail)
      (framed : ∀ member ∈ before ++ own :: after, member.Framed)
      (values : ∀ member ∈ before ++ own :: after, Value member.value)
      (named : Literal own.key name) (last : ∀ member ∈ after, ¬Literal member.key name)
      (string : own.value = '"' :: literal ++ ['"']) (stands : Literal literal value) :
      StringField name
        (lead ++ '\x7b' :: [','].intercalate ((before ++ own :: after).map Member.text) ++ '\x7d' :: trail)
        literal (own.trail ++ (after.flatMap fun member => ',' :: member.text) ++ '\x7d' :: trail) value

theorem StringField.stands {name json literal rest value : List Char}
    (field : StringField name json literal rest value) : Literal literal value := by
  cases field
  assumption

end Fswtch.Lib.JsonText
