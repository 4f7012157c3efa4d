import Fswtch.Seat.DoubaoStream

/-! The text of a `speak` call while its arguments stream in. What has come of the value is read
off the arguments after each delta, and what is new in it is forwarded. -/

namespace Fswtch.Seat.DoubaoStream
open Fswtch.Lib.CharBytes Fswtch.Seat.SentenceSplit

def quoted : Text → Option Text
  | '"' :: valueStart => some valueStart
  | _ => none

/-- What follows the opening quote of the value of `field`, where it is looked for. -/
def valuePlace (json field : Text) : Option Text :=
  ((afterFirst ('"' :: field ++ ['"']) json).bind (afterFirst [':'])).bind fun afterColon =>
    quoted (afterColon.dropWhile isWhitespace)

theorem extractPartialJsonString_eq (json field : Text) :
    extractPartialJsonString json field =
      (valuePlace json field).elim (some none) fun place =>
        (splitBytes (scanValue 0 0 place) place).map fun halves => some halves.1 := by
  unfold extractPartialJsonString valuePlace
  cases (afterFirst ('"' :: field ++ ['"']) json).bind (afterFirst [':']) with
  | none => rfl
  | some afterColon =>
    dsimp only [Option.bind_some]
    generalize afterColon.dropWhile isWhitespace = start
    unfold quoted
    split
    next => rfl
    next unquoted =>
      split
      next valueStart => exact absurd rfl (unquoted valueStart)
      next => rfl

theorem afterFirst_split {pattern text rest : Text} (found : afterFirst pattern text = some rest) :
    ∃ front, text = front ++ (pattern ++ rest) := by
  fun_induction afterFirst pattern text with
  | case1 empty =>
    cases found
    exact ⟨[], empty.symm ▸ rfl⟩
  | case2 => cases found
  | case3 ch rest' here =>
    cases found
    obtain ⟨more, same⟩ := List.isPrefixOf_iff_prefix.mp here
    refine ⟨[], ?_⟩
    rw [← same, List.drop_left]
    rfl
  | case4 ch rest' _ ih =>
    obtain ⟨front, rfl⟩ := ih found
    exact ⟨ch :: front, rfl⟩

theorem afterFirst_boundary {pattern text rest : Text} (found : afterFirst pattern text = some rest) :
    ∃ front, splitBytes (byteLen front + byteLen pattern) text = some (front ++ pattern, rest) := by
  obtain ⟨front, rfl⟩ := afterFirst_split found
  refine ⟨front, ?_⟩
  rw [← byteLen_append, ← List.append_assoc]
  exact splitBytes_append (front ++ pattern) rest

theorem afterFirst_append {pattern text rest : Text} (found : afterFirst pattern text = some rest) (more : Text) :
    afterFirst pattern (text ++ more) = some (rest ++ more) := by
  fun_induction afterFirst pattern text with
  | case1 empty =>
    cases found
    subst empty
    cases more <;> rfl
  | case2 => cases found
  | case3 ch rest' here =>
    cases found
    have length : pattern.length ≤ (ch :: rest').length := (List.isPrefixOf_iff_prefix.mp here).length_le
    have still : pattern.isPrefixOf (ch :: (rest' ++ more)) = true := by
      rw [List.isPrefixOf_iff_prefix] at here ⊢
      exact here.trans (List.prefix_append (ch :: rest') more)
    rw [List.cons_append, afterFirst, if_pos still, ← List.cons_append, List.drop_append_of_le_length length]
  | case4 ch rest' absent ih =>
    obtain ⟨front, whole⟩ := afterFirst_split found
    have length := congrArg List.length whole
    simp only [List.length_append] at length
    have still : ¬pattern.isPrefixOf (ch :: (rest' ++ more)) = true := by
      rw [List.isPrefixOf_iff_prefix] at absent ⊢
      intro before
      refine absent (List.prefix_of_prefix_length_le before (List.prefix_append (ch :: rest') more) ?_)
      rw [List.length_cons]
      omega
    rw [List.cons_append, afterFirst, if_neg still]
    exact ih found

theorem quoted_dropWhile_append {text valueStart : Text}
    (found : quoted (text.dropWhile isWhitespace) = some valueStart) (more : Text) :
    quoted ((text ++ more).dropWhile isWhitespace) = some (valueStart ++ more) := by
  induction text with
  | nil => cases found
  | cons ch rest ih =>
    rw [List.cons_append]
    by_cases blank : isWhitespace ch = true
    · rw [List.dropWhile_cons_of_pos blank] at found ⊢
      exact ih found
    · rw [List.dropWhile_cons_of_neg blank] at found ⊢
      unfold quoted at found
      split at found
      next same =>
        cases same
        cases found
        rfl
      next => cases found

theorem valuePlace_append {json field place : Text} (found : valuePlace json field = some place) (more : Text) :
    valuePlace (json ++ more) field = some (place ++ more) := by
  unfold valuePlace at found ⊢
  obtain ⟨afterColon, located, start⟩ := Option.bind_eq_some_iff.mp found
  obtain ⟨afterKey, key, colon⟩ := Option.bind_eq_some_iff.mp located
  rw [afterFirst_append key more, Option.bind_some, afterFirst_append colon more, Option.bind_some]
  exact quoted_dropWhile_append start more

/-- Characters other than the quote, and a backslash with the character after it. -/
inductive Units : Text → Prop
  | nil : Units []
  | plain (ch : Char) (rest : Text) (unquoted : ch ≠ '"') (unescaped : ch ≠ '\\') (later : Units rest) :
      Units (ch :: rest)
  | escape (ch : Char) (rest : Text) (later : Units rest) : Units ('\\' :: ch :: rest)

/-- The value up to its closing quote, or as far as it has come. -/
def taken : Text → Text
  | [] => []
  | ['\\'] => ['\\']
  | '\\' :: ch :: rest => '\\' :: ch :: taken rest
  | ch :: rest => if ch = '"' then [] else ch :: taken rest

/-- A value that ends, without its quote, in a backslash or in a backslash and a character of
more than one byte. -/
def EndsInEscape (place : Text) : Prop :=
  ∃ front, Units front ∧ (place = front ++ ['\\'] ∨ ∃ ch, place = front ++ ['\\', ch] ∧ ch.utf8Size ≠ 1)

theorem Units.append {front back : Text} (one : Units front) (other : Units back) : Units (front ++ back) := by
  induction one with
  | nil => exact other
  | plain ch rest unquoted unescaped _ ih => exact .plain ch _ unquoted unescaped ih
  | escape ch rest _ ih => exact .escape ch _ ih

theorem taken_plain {ch : Char} (unquoted : ch ≠ '"') (unescaped : ch ≠ '\\') (rest : Text) :
    taken (ch :: rest) = ch :: taken rest := by
  rw [taken.eq_4 ch rest (fun same _ => unescaped same) (fun _ _ same _ => unescaped same), if_neg unquoted]

theorem taken_append {front : Text} (units : Units front) (back : Text) : taken (front ++ back) = front ++ taken back := by
  induction units with
  | nil => rfl
  | plain ch rest unquoted unescaped _ ih => rw [List.cons_append, taken_plain unquoted unescaped, ih]; rfl
  | escape ch rest _ ih =>
    show taken ('\\' :: ch :: (rest ++ back)) = _
    rw [taken, ih]
    rfl

/-- A value is closed, or has come so far, or stops behind a backslash. -/
theorem value_cases (place : Text) :
    (∃ front rest, Units front ∧ place = front ++ '"' :: rest) ∨ Units place ∨
      ∃ front, Units front ∧ place = front ++ ['\\'] := by
  fun_induction taken place with
  | case1 => exact .inr (.inl .nil)
  | case2 => exact .inr (.inr ⟨[], .nil, rfl⟩)
  | case3 ch rest ih =>
    rcases ih with ⟨front, back, units, rfl⟩ | units | ⟨front, units, rfl⟩
    · exact .inl ⟨'\\' :: ch :: front, back, .escape ch front units, rfl⟩
    · exact .inr (.inl (.escape ch rest units))
    · exact .inr (.inr ⟨'\\' :: ch :: front, .escape ch front units, rfl⟩)
  | case4 rest => exact .inl ⟨[], rest, .nil, rfl⟩
  | case5 ch rest lone escape unquoted ih =>
    have unescaped : ch ≠ '\\' := by
      rintro rfl
      cases rest with
      | nil => exact lone rfl rfl
      | cons next rest => exact escape next rest rfl rfl
    rcases ih with ⟨front, back, units, rfl⟩ | units | ⟨front, units, rfl⟩
    · exact .inl ⟨ch :: front, back, .plain ch front unquoted unescaped units, rfl⟩
    · exact .inr (.inl (.plain ch rest unquoted unescaped units))
    · exact .inr (.inr ⟨ch :: front, .plain ch front unquoted unescaped units, rfl⟩)

theorem Units.last {text : Text} (units : Units text) :
    text = [] ∨ (∃ front ch, Units front ∧ ch ≠ '"' ∧ ch ≠ '\\' ∧ text = front ++ [ch]) ∨
      ∃ front ch, Units front ∧ text = front ++ ['\\', ch] := by
  induction units with
  | nil => exact .inl rfl
  | plain ch rest unquoted unescaped later ih =>
    rcases ih with rfl | ⟨front, last, units, unquotedToo, unescapedToo, rfl⟩ | ⟨front, last, units, rfl⟩
    · exact .inr (.inl ⟨[], ch, .nil, unquoted, unescaped, rfl⟩)
    · exact .inr (.inl ⟨ch :: front, last, .plain ch front unquoted unescaped units, unquotedToo, unescapedToo, rfl⟩)
    · exact .inr (.inr ⟨ch :: front, last, .plain ch front unquoted unescaped units, rfl⟩)
  | escape ch rest later ih =>
    rcases ih with rfl | ⟨front, last, units, unquoted, unescaped, rfl⟩ | ⟨front, last, units, rfl⟩
    · exact .inr (.inr ⟨[], ch, .nil, rfl⟩)
    · exact .inr (.inl ⟨'\\' :: ch :: front, last, .escape ch front units, unquoted, unescaped, rfl⟩)
    · exact .inr (.inr ⟨'\\' :: ch :: front, last, .escape ch front units, rfl⟩)

theorem scanValue_plain {ch : Char} (unescaped : ch ≠ '\\') (i stop : Nat) (rest : Text) :
    scanValue i stop (ch :: rest) =
      if ch = '"' then i else scanValue (i + ch.utf8Size) (i + ch.utf8Size) rest := by
  rw [scanValue.eq_4 i stop ch rest (fun same _ => unescaped same) (fun _ _ same _ => unescaped same)]

theorem scanValue_append {front : Text} (units : Units front) (i stop : Nat) :
    ∃ stop', ∀ back, scanValue i stop (front ++ back) = scanValue (i + byteLen front) stop' back := by
  induction units generalizing i stop with
  | nil => exact ⟨stop, fun _ => rfl⟩
  | plain ch rest unquoted unescaped _ ih =>
    obtain ⟨stop', scans⟩ := ih (i + ch.utf8Size) (i + ch.utf8Size)
    refine ⟨stop', fun back => ?_⟩
    rw [List.cons_append, scanValue_plain unescaped, if_neg unquoted, scans, byteLen_cons, Nat.add_assoc]
  | escape ch rest _ ih =>
    obtain ⟨stop', scans⟩ := ih (i + 1 + ch.utf8Size) (i + 2)
    refine ⟨stop', fun back => ?_⟩
    rw [byteLen_cons, byteLen_cons, show Char.utf8Size '\\' = 1 from rfl, ← Nat.add_assoc, ← Nat.add_assoc]
    exact scans back

theorem splitBytes_scanValue_append {front back : Text} {offset : Nat} (units : Units front)
    (ends : ∀ i stop, scanValue i stop back = i + offset) :
    splitBytes (scanValue 0 0 (front ++ back)) (front ++ back) =
      (splitBytes offset back).map fun halves => (front ++ halves.1, halves.2) := by
  obtain ⟨stop, scans⟩ := scanValue_append units 0 0
  rw [scans, ends, Nat.zero_add]
  exact splitBytes_append_add front back offset

theorem splitBytes_scanValue_cut {place : Text} (cut : EndsInEscape place) :
    splitBytes (scanValue 0 0 place) place = none := by
  obtain ⟨front, units, rfl | ⟨ch, rfl, wide⟩⟩ := cut
  · have ends (i stop : Nat) : scanValue i stop ['\\'] = i + 2 := rfl
    rw [splitBytes_scanValue_append units ends]
    rfl
  · have positive := ch.utf8Size_pos
    have off : splitBytes 2 ['\\', ch] = none := by
      rw [splitBytes, if_pos (by decide), show 1 + 1 - Char.utf8Size '\\' = 0 + 1 from rfl, splitBytes,
        if_neg (by omega)]
      rfl
    rw [splitBytes_scanValue_append units (fun _ _ => rfl), off]
    rfl

theorem splitBytes_scanValue_taken {place : Text} (whole : ¬EndsInEscape place) :
    ∃ back, splitBytes (scanValue 0 0 place) place = some (taken place, back) := by
  rcases value_cases place with ⟨front, rest, units, rfl⟩ | units | ⟨front, units, rfl⟩
  · have ends (i stop : Nat) : scanValue i stop ('"' :: rest) = i + 0 := by
      rw [scanValue_plain (by decide), if_pos rfl, Nat.add_zero]
    rw [splitBytes_scanValue_append units ends, splitBytes, taken_append units]
    exact ⟨'"' :: rest, rfl⟩
  · have all : taken place = place := by
      have joined := taken_append units []
      rwa [List.append_nil, taken, List.append_nil] at joined
    rw [all]
    rcases units.last with rfl | ⟨front, ch, earlier, unquoted, unescaped, rfl⟩ | ⟨front, ch, earlier, rfl⟩
    · exact ⟨[], rfl⟩
    · have ends (i stop : Nat) : scanValue i stop [ch] = i + byteLen [ch] := by
        rw [scanValue_plain unescaped, if_neg unquoted]
        rfl
      have split := splitBytes_append [ch] []
      rw [List.append_nil] at split
      rw [splitBytes_scanValue_append earlier ends, split]
      exact ⟨[], rfl⟩
    · have narrow : ch.utf8Size = 1 := by
        by_contra wide
        exact whole ⟨front, earlier, .inr ⟨ch, rfl, wide⟩⟩
      have ends (i stop : Nat) : scanValue i stop ['\\', ch] = i + byteLen ['\\', ch] := by
        rw [byteLen_cons, byteLen_cons, narrow]
        rfl
      have split := splitBytes_append ['\\', ch] []
      rw [List.append_nil] at split
      rw [splitBytes_scanValue_append earlier ends, split]
      exact ⟨[], rfl⟩
  · exact absurd ⟨front, units, .inl rfl⟩ whole

theorem taken_prefix {place : Text} (whole : ¬EndsInEscape place) (more : Text) : taken place <+: taken (place ++ more) := by
  rcases value_cases place with ⟨front, rest, units, rfl⟩ | units | ⟨front, units, rfl⟩
  · rw [List.append_assoc, taken_append units, taken_append units]
    exact List.prefix_refl _
  · have all := taken_append units []
    rw [List.append_nil] at all
    rw [all, taken, List.append_nil, taken_append units]
    exact List.prefix_append place _
  · exact absurd ⟨front, units, .inl rfl⟩ whole

/-- What has come of the text of a `speak` call with these arguments. -/
def spokenSoFar (args : Text) : Text := ((valuePlace args "text".toList).map taken).getD []

/-- The text stops, without its closing quote, behind an escape that is cut. -/
def StopsInEscape (args : Text) : Prop := ∃ place, valuePlace args "text".toList = some place ∧ EndsInEscape place

def AnnouncesSpeak (parsed : Json) : Prop :=
  ∃ item, parsed.get "item" = some item ∧ item.getStr "type" = some "function_call".toList ∧
    item.getStr "name" = some "speak".toList

def argumentDeltas (events : List Json) : List Text := events.filterMap (Json.getStr "delta")

/-- The state after the argument events of a call; `none` when a slice fails. -/
def StreamingState.onArguments (s : StreamingState) (events : List Json) : Option StreamingState :=
  events.foldlM StreamingState.onArgumentsDelta s

/-- The state `s` after the arguments `args` of a `speak` call that was announced in `start`. -/
structure Speaking (start : StreamingState) (args : Text) (s : StreamingState) : Prop where
  name : s.pendingName = some "speak"
  pending : s.pendingArgs = args
  length : s.forwardedTextLen = byteLen (spokenSoFar args)
  forwarded : ∃ new, s.deltas = start.deltas ++ new ∧ (new.map Prod.snd).flatten = spokenSoFar args

theorem spokenSoFar_prefix {args : Text} (whole : ¬StopsInEscape args) (delta : Text) :
    spokenSoFar args <+: spokenSoFar (args ++ delta) := by
  unfold spokenSoFar
  cases found : valuePlace args "text".toList with
  | none => exact List.nil_prefix
  | some place =>
    rw [valuePlace_append found delta]
    exact taken_prefix (fun cut => whole ⟨place, found, cut⟩) delta

theorem extract_spokenSoFar {args : Text} (whole : ¬StopsInEscape args) :
    extractPartialJsonString args "text".toList =
      some ((valuePlace args "text".toList).map fun _ => spokenSoFar args) := by
  rw [extractPartialJsonString_eq]
  unfold spokenSoFar
  cases found : valuePlace args "text".toList with
  | none => rfl
  | some place =>
    obtain ⟨back, split⟩ := splitBytes_scanValue_taken fun cut => whole ⟨place, found, cut⟩
    show (splitBytes (scanValue 0 0 place) place).map _ = _
    rw [split]
    rfl

theorem extract_stopsInEscape {args : Text} (cut : StopsInEscape args) :
    extractPartialJsonString args "text".toList = none := by
  obtain ⟨place, found, ends⟩ := cut
  rw [extractPartialJsonString_eq, found, Option.elim_some, splitBytes_scanValue_cut ends]
  rfl

theorem not_stopsInEscape_nil : ¬StopsInEscape [] := by
  rintro ⟨place, found, _⟩
  cases found

theorem onOutputItemAdded_speaking (s : StreamingState) {parsed : Json} (announces : AnnouncesSpeak parsed) :
    Speaking (s.onOutputItemAdded parsed) [] (s.onOutputItemAdded parsed) := by
  obtain ⟨item, found, type, name⟩ := announces
  unfold StreamingState.onOutputItemAdded
  rw [found]
  dsimp only
  rw [if_pos type, name]
  exact ⟨rfl, rfl, rfl, [], (List.append_nil _).symm, rfl⟩

section Delta

variable {start s : StreamingState} {args delta : Text} {parsed : Json}

theorem onArgumentsDelta_cut (known : Speaking start args s) (read : parsed.getStr "delta" = some delta)
    (cut : StopsInEscape (args ++ delta)) : s.onArgumentsDelta parsed = none := by
  unfold StreamingState.onArgumentsDelta
  rw [read]
  dsimp only
  rw [if_pos known.name, known.pending, extract_stopsInEscape cut]
  rfl

theorem forwardSuffix_speaking (name : s.pendingName = some "speak") (length : s.forwardedTextLen = byteLen (spokenSoFar args))
    (forwarded : ∃ new, s.deltas = start.deltas ++ new ∧ (new.map Prod.snd).flatten = spokenSoFar args)
    (pending : s.pendingArgs = args ++ delta) (grows : spokenSoFar args <+: spokenSoFar (args ++ delta)) :
    ∃ next, s.forwardSuffix (spokenSoFar (args ++ delta)) = some next ∧ Speaking start (args ++ delta) next := by
  obtain ⟨more, same⟩ := grows
  obtain ⟨new, deltas, flat⟩ := forwarded
  unfold StreamingState.forwardSuffix
  rw [← same, byteLen_append, length]
  split
  next longer =>
    rw [splitBytes_append]
    refine ⟨_, rfl, name, pending, by rw [← same, byteLen_append], new ++ [(s.origin, more)], ?_, ?_⟩
    · show s.deltas ++ _ = _
      rw [deltas, List.append_assoc]
    · rw [List.map_append, List.flatten_append, flat, ← same]
      simp
  next short =>
    have empty : more = [] := by
      cases more with
      | nil => rfl
      | cons ch rest =>
        have positive := ch.utf8Size_pos
        rw [byteLen_cons] at short
        omega
    rw [empty, List.append_nil] at same
    exact ⟨s, rfl, name, pending, by rw [length, same], new, deltas, by rw [flat, same]⟩

theorem onArgumentsDelta_speaking (known : Speaking start args s) (read : parsed.getStr "delta" = some delta)
    (whole : ¬StopsInEscape args) (still : ¬StopsInEscape (args ++ delta)) :
    ∃ next, s.onArgumentsDelta parsed = some next ∧ Speaking start (args ++ delta) next := by
  have grows := spokenSoFar_prefix whole delta
  unfold StreamingState.onArgumentsDelta
  rw [read]
  dsimp only
  rw [if_pos known.name, known.pending, extract_spokenSoFar still, Option.bind_some]
  cases found : valuePlace (args ++ delta) "text".toList with
  | none =>
    have nothing : spokenSoFar (args ++ delta) = [] := by
      rw [spokenSoFar, found]
      rfl
    rw [nothing, List.prefix_nil] at grows
    refine ⟨_, rfl, known.name, rfl, ?_, ?_⟩
    · rw [nothing, ← grows]
      exact known.length
    · rw [nothing, ← grows]
      exact known.forwarded
  | some place => exact forwardSuffix_speaking known.name known.length known.forwarded rfl grows

end Delta

theorem onArguments_cons (s : StreamingState) (event : Json) (rest : List Json) :
    s.onArguments (event :: rest) = (s.onArgumentsDelta event).bind fun next => next.onArguments rest := rfl

/-- A run without a failing slice forwards what has come of the text. -/
theorem onArguments_speaking {start s final : StreamingState} {args : Text} (known : Speaking start args s)
    (whole : ¬StopsInEscape args) {events : List Json} (handled : s.onArguments events = some final) :
    Speaking start (args ++ (argumentDeltas events).flatten) final := by
  induction events generalizing s args with
  | nil =>
    cases handled
    rwa [argumentDeltas, List.filterMap_nil, List.flatten_nil, List.append_nil]
  | cons event rest ih =>
    obtain ⟨next, here, later⟩ := Option.bind_eq_some_iff.mp handled
    cases read : event.getStr "delta" with
    | none =>
      have same : next = s := by
        unfold StreamingState.onArgumentsDelta at here
        rw [read] at here
        exact (Option.some.inj here).symm
      rw [argumentDeltas, List.filterMap_cons_none read]
      exact ih (same ▸ known) whole later
    | some delta =>
      have still : ¬StopsInEscape (args ++ delta) := by
        intro cut
        cases (onArgumentsDelta_cut known read cut).symm.trans here
      obtain ⟨next', same, speaking⟩ := onArgumentsDelta_speaking known read whole still
      cases here.symm.trans same
      rw [argumentDeltas, List.filterMap_cons_some read, List.flatten_cons, ← List.append_assoc]
      exact ih speaking still later

/-- The slices of a run are in bounds and on boundaries exactly when the text never stops in an
escape that is cut. -/
theorem onArguments_isSome {start s : StreamingState} {args : Text} (known : Speaking start args s)
    (whole : ¬StopsInEscape args) (events : List Json) :
    (s.onArguments events).isSome ↔
      ∀ front, front <+: argumentDeltas events → ¬StopsInEscape (args ++ front.flatten) := by
  induction events generalizing s args with
  | nil =>
    refine iff_of_true rfl fun front before => ?_
    rw [argumentDeltas, List.filterMap_nil, List.prefix_nil] at before
    rwa [before, List.flatten_nil, List.append_nil]
  | cons event rest ih =>
    rw [onArguments_cons]
    cases read : event.getStr "delta" with
    | none =>
      have same : s.onArgumentsDelta event = some s := by
        unfold StreamingState.onArgumentsDelta
        rw [read]
      rw [same, Option.bind_some, argumentDeltas, List.filterMap_cons_none read]
      exact ih known whole
    | some delta =>
      rw [argumentDeltas, List.filterMap_cons_some read]
      have first : [delta] <+: delta :: rest.filterMap (Json.getStr "delta") := List.prefix_append [delta] _
      by_cases cut : StopsInEscape (args ++ delta)
      · rw [onArgumentsDelta_cut known read cut]
        refine iff_of_false nofun fun never => never [delta] first ?_
        rwa [List.flatten_cons, List.flatten_nil, List.append_nil]
      · obtain ⟨next, same, speaking⟩ := onArgumentsDelta_speaking known read whole cut
        rw [same, Option.bind_some, ih speaking cut]
        constructor
        · intro never front before
          cases front with
          | nil => rwa [List.flatten_nil, List.append_nil]
          | cons other front =>
            obtain ⟨rfl, later⟩ := List.cons_prefix_cons.mp before
            rw [List.flatten_cons, ← List.append_assoc]
            exact never front later
        · intro never front before
          have longer := never (delta :: front) (List.cons_prefix_cons.mpr ⟨rfl, before⟩)
          rwa [List.flatten_cons, ← List.append_assoc] at longer

/-- Once a `speak` call is announced, no slice over its argument deltas fails exactly when after
none of them the text stops in an escape that is cut; the slices behind the key and behind the
colon are always on boundaries. -/
theorem extraction_total_iff (s : StreamingState) {parsed : Json} (announces : AnnouncesSpeak parsed)
    (events : List Json) :
    (((s.onOutputItemAdded parsed).onArguments events).isSome ↔
        ∀ front, front <+: argumentDeltas events → ¬StopsInEscape front.flatten) ∧
      ∀ pattern text rest, afterFirst pattern text = some rest →
        ∃ front, splitBytes (byteLen front + byteLen pattern) text = some (front ++ pattern, rest) :=
  ⟨onArguments_isSome (onOutputItemAdded_speaking s announces) not_stopsInEscape_nil events,
    fun _ _ _ => afterFirst_boundary⟩

def speakAnnounced : Json :=
  .object [("item", .object [("type", .string "function_call".toList), ("name", .string "speak".toList)])]

def argumentEvent (delta : String) : Json := .object [("delta", .string delta.toList)]

theorem speakAnnounced_announces : AnnouncesSpeak speakAnnounced := ⟨_, rfl, rfl, rfl⟩

def lineBreak : List Json :=
  [argumentEvent "\x7b\"te", argumentEvent "xt\":\"a", argumentEvent "\\n", argumentEvent "b\"\x7d"]

theorem lineBreak_never_stops :
    ((StreamingState.onOutputItemAdded {} speakAnnounced).onArguments lineBreak).isSome ∧
      ¬StopsInEscape (argumentDeltas lineBreak).flatten ∧ ¬StopsInEscape "\x7b\"text\":\"a\\n".toList := by
  have total : ((StreamingState.onOutputItemAdded {} speakAnnounced).onArguments lineBreak).isSome := by decide +kernel
  have never := (extraction_total_iff {} speakAnnounced_announces lineBreak).1.mp total
  exact ⟨total, never _ (List.prefix_refl _), never ((argumentDeltas lineBreak).take 3) (List.take_prefix 3 _)⟩

/-- Cut inside it, the slice runs past the end. -/
theorem lineBreak_cut_panics :
    ¬∀ (s : StreamingState) (parsed : Json), AnnouncesSpeak parsed → ∀ events,
      ((s.onOutputItemAdded parsed).onArguments events).isSome := by
  intro total
  have handled := total {} speakAnnounced speakAnnounced_announces
    [argumentEvent "\x7b\"text\":\"a\\", argumentEvent "nb\"\x7d"]
  revert handled
  decide +kernel

end Fswtch.Seat.DoubaoStream
