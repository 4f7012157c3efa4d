import Fswtch.Lib.JsonText
import Fswtch.Seat.SpeakText

/-! The text forwarded for a `speak` call beside the value of its field. The value is looked for
by its key and forwarded as it is written; the arguments are parsed only when the call is done. -/

namespace Fswtch.Seat.DoubaoStream
open Fswtch.Lib.JsonText Fswtch.Seat.SentenceSplit

def StandsAt (text place : Text) : Prop := Units text ∧ (place = text ∨ ∃ rest, place = text ++ '"' :: rest)

/-- The search for the key lands on the field's own literal and nothing is escaped in it; or it
lands elsewhere, where the same text happens to stand; or nowhere, and there is no text. -/
def ReadsPlainly (args literal rest value : Text) : Prop :=
  match valuePlace args "text".toList with
  | none => value = []
  | some place => if place = literal ++ '"' :: rest then '\\' ∉ literal else StandsAt value place

theorem units_of_plain {text : Text} (plain : ∀ ch ∈ text, ch ≠ '"' ∧ ch ≠ '\\') : Units text := by
  induction text with
  | nil => exact .nil
  | cons ch rest ih =>
    obtain ⟨⟨unquoted, unescaped⟩, later⟩ := List.forall_mem_cons.mp plain
    exact .plain ch rest unquoted unescaped (ih later)

theorem Literal.units {literal text : Text} (stands : Literal literal text) : Units literal := by
  induction stands with
  | nil => exact .nil
  | plain ch rest text unquoted unescaped printable later ih => exact .plain ch rest unquoted unescaped ih
  | short letter ch rest text stands later ih => exact .escape letter rest ih
  | unit a b c d unit rest text digits single later ih =>
    exact .escape 'u' _ ((units_of_plain (codeUnit_plain digits)).append ih)
  | pair a b c d a' b' c' d' high low rest text digits digits' first second later ih =>
    have second : Units ('\\' :: 'u' :: ([a', b', c', d'] ++ rest)) :=
      .escape 'u' _ ((units_of_plain (codeUnit_plain digits')).append ih)
    exact .escape 'u' _ ((units_of_plain (codeUnit_plain digits)).append second)

theorem taken_eq_iff {place : Text} (whole : ¬EndsInEscape place) (text : Text) : taken place = text ↔ StandsAt text place := by
  constructor
  · rintro rfl
    rcases value_cases place with ⟨front, rest, units, rfl⟩ | units | ⟨front, units, rfl⟩
    · have closed : taken (front ++ '"' :: rest) = front := by
        rw [taken_append units]
        exact List.append_nil front
      rw [closed]
      exact ⟨units, .inr ⟨rest, rfl⟩⟩
    · have all := taken_append units []
      rw [List.append_nil] at all
      rw [all, taken, List.append_nil]
      exact ⟨units, .inl rfl⟩
    · exact absurd ⟨front, units, .inl rfl⟩ whole
  · rintro ⟨units, rfl | ⟨rest, rfl⟩⟩
    · have all := taken_append units []
      rwa [List.append_nil, taken, List.append_nil] at all
    · rw [taken_append units]
      exact List.append_nil text

theorem spokenSoFar_eq_iff {args literal rest value : Text} (whole : ¬StopsInEscape args)
    (stands : Literal literal value) : spokenSoFar args = value ↔ ReadsPlainly args literal rest value := by
  unfold spokenSoFar ReadsPlainly
  cases found : valuePlace args "text".toList with
  | none => exact eq_comm
  | some place =>
    show taken place = value ↔ _
    have inside : ¬EndsInEscape place := fun cut => whole ⟨place, found, cut⟩
    by_cases own : place = literal ++ '"' :: rest
    · have read : taken place = literal := (taken_eq_iff inside literal).mpr ⟨Literal.units stands, .inr ⟨rest, own⟩⟩
      rw [read, stands.eq_iff]
      exact (Iff.of_eq (if_pos own)).symm
    · rw [taken_eq_iff inside]
      exact (Iff.of_eq (if_neg own)).symm

def forwardedSince (s final : StreamingState) : Text := ((final.deltas.drop s.deltas.length).map Prod.snd).flatten

theorem onOutputItemAdded_deltas (s : StreamingState) (parsed : Json) : (s.onOutputItemAdded parsed).deltas = s.deltas := by
  unfold StreamingState.onOutputItemAdded
  split
  next => split <;> rfl
  next => rfl

/-- However the arguments are cut, as long as no slice fails: what a `speak` call forwards is the
value of its field exactly when that reads plainly. -/
theorem forwarded_eq_value_iff (s : StreamingState) {parsed : Json} (announces : AnnouncesSpeak parsed)
    {events : List Json} {final : StreamingState} {literal rest value : Text}
    (handled : (s.onOutputItemAdded parsed).onArguments events = some final)
    (field : StringField "text".toList (argumentDeltas events).flatten literal rest value) :
    forwardedSince s final = value ↔ ReadsPlainly (argumentDeltas events).flatten literal rest value := by
  have start := onOutputItemAdded_speaking s announces
  have never := (onArguments_isSome start not_stopsInEscape_nil events).mp (handled ▸ rfl)
  have whole : ¬StopsInEscape (argumentDeltas events).flatten := never _ (List.prefix_refl _)
  obtain ⟨new, deltas, flat⟩ := (onArguments_speaking start not_stopsInEscape_nil handled).forwarded
  have forwarded : forwardedSince s final = spokenSoFar (argumentDeltas events).flatten := by
    rw [onOutputItemAdded_deltas] at deltas
    rw [forwardedSince, deltas, List.drop_left, flat]
    rfl
  rw [forwarded]
  exact spokenSoFar_eq_iff whole field.stands

theorem textKey_stands : Literal "text".toList "text".toList :=
  .plain 't' _ _ (by decide) (by decide) (by decide) <| .plain 'e' _ _ (by decide) (by decide) (by decide) <|
    .plain 'x' _ _ (by decide) (by decide) (by decide) <| .plain 't' _ _ (by decide) (by decide) (by decide) .nil

/-- An object with one member, a string under the key `text`. -/
theorem textOnly_field {literal value : Text} (stands : Literal literal value) :
    StringField "text".toList ("\x7b\"text\":\"".toList ++ literal ++ "\"\x7d".toList) literal ['\x7d'] value := by
  let own : Member := ⟨[], "text".toList, [], [], '"' :: literal ++ ['"'], []⟩
  have framed : ∀ member ∈ [own], member.Framed := by
    intro member here
    rw [List.mem_singleton.mp here]
    exact ⟨nofun, ⟨_, textKey_stands⟩, nofun, nofun, nofun⟩
  have values : ∀ member ∈ [own], Value member.value := by
    intro member here
    rw [List.mem_singleton.mp here]
    exact .string literal value stands
  have field := StringField.mk [] [] [] [] own literal value nofun nofun framed values textKey_stands nofun rfl stands
  simpa [own, Member.text, List.intercalate] using field

theorem hi_stands : Literal "Hi".toList "Hi".toList :=
  .plain 'H' _ _ (by decide) (by decide) (by decide) <| .plain 'i' _ _ (by decide) (by decide) (by decide) .nil

/-- The arguments of a greeting, cut inside the key and inside the value. -/
def greeting : List Json := [argumentEvent "\x7b\"te", argumentEvent "xt\":\"H", argumentEvent "i\"\x7d"]

theorem greeting_forwarded :
    ∃ final, (StreamingState.onOutputItemAdded {} speakAnnounced).onArguments greeting = some final ∧
      forwardedSince {} final = "Hi".toList := by
  have total : ((StreamingState.onOutputItemAdded {} speakAnnounced).onArguments greeting).isSome := by decide +kernel
  obtain ⟨final, handled⟩ := Option.isSome_iff_exists.mp total
  refine ⟨final, handled, ?_⟩
  apply (forwarded_eq_value_iff {} speakAnnounced_announces handled (textOnly_field hi_stands)).mpr
  have place : valuePlace (argumentDeltas greeting).flatten "text".toList = some "Hi\"\x7d".toList := by decide +kernel
  rw [ReadsPlainly, place]
  exact (Iff.of_eq (if_pos rfl)).mpr (by decide)

theorem lineBreak_stands : Literal "a\\nb".toList "a\nb".toList :=
  .plain 'a' _ _ (by decide) (by decide) (by decide) <| .short 'n' '\n' _ _ rfl <|
    .plain 'b' _ _ (by decide) (by decide) (by decide) .nil

def twoLines : List Json := [argumentEvent "\x7b\"text\":\"a\\nb\"\x7d"]

/-- A line break is forwarded as the two characters it is written with. -/
theorem twoLines_not_decoded :
    ¬∀ (s : StreamingState) (parsed : Json), AnnouncesSpeak parsed → ∀ (events : List Json) (final : StreamingState),
      (s.onOutputItemAdded parsed).onArguments events = some final →
      ∀ literal rest value, StringField "text".toList (argumentDeltas events).flatten literal rest value →
        forwardedSince s final = value := by
  intro decoded
  have total : ((StreamingState.onOutputItemAdded {} speakAnnounced).onArguments twoLines).isSome := by decide +kernel
  obtain ⟨final, handled⟩ := Option.isSome_iff_exists.mp total
  have same := decoded {} speakAnnounced speakAnnounced_announces twoLines final handled _ _ _
    (textOnly_field lineBreak_stands)
  have written : ((StreamingState.onOutputItemAdded {} speakAnnounced).onArguments twoLines).map (forwardedSince {}) =
      some "a\\nb".toList := by decide +kernel
  rw [handled, Option.map_some, same] at written
  revert written
  decide

end Fswtch.Seat.DoubaoStream
