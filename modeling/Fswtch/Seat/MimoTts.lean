import Fswtch.Lib.StepRun
import Fswtch.Seat.DoubaoStream

/-! The MIMO handle of a call. Every sentence is a `synthesize` call of its own, in a task of
its own, that streams its response and pushes the PCM of each chunk as it comes in; the calls
share one flag, which `cancel` sets and nothing clears. -/

namespace Fswtch.Seat.MimoTts
open Fswtch.Lib.ByteReader Fswtch.Lib.ChunkedText Fswtch.Lib.StepRun
open Fswtch.Seat.SentenceSplit Fswtch.Seat.DoubaoStream

abbrev Pcm := List Int16

/-- JSON, base64 and the resampler, which starts `fresh` and carries its state along. -/
structure Decoder (ρ : Type) where
  parse : Parser
  base64 : Text → Option (List UInt8)
  fresh : ρ
  process : ρ → Pcm → ρ × Pcm

/-- `chunks_exact(2)`, each pair little-endian. -/
def samples : List UInt8 → Pcm
  | low :: high :: rest => Int16.ofNat (low.toNat + 256 * high.toNat) :: samples rest
  | _ => []

def first : Json → Option Json
  | .array items => items.head?
  | _ => none

def audioData (parsed : Json) : Option Text :=
  ((((parsed.get "choices").bind first).bind (Json.get "delta")).bind (Json.get "audio")).bind
    (Json.getStr "data")

def readLine (assembled raw : Text) : Text :=
  let line := trim raw
  if line = [] ∨ line.head? = some ':' then assembled
  else (stripStart "data: " line).elim assembled (pushLine assembled)

def readBlock (block : Text) : Text := (block.splitOn '\n').foldl readLine []

/-- How the blocks of a chunk end: all were read, `[DONE]` came, or a field was not base64. -/
inductive Ending where
  | drained
  | done
  | failed
  deriving DecidableEq

structure Reading (ρ : Type) where
  resampler : ρ
  audio : List Pcm := []
  ending : Ending := .drained

variable {ρ : Type}

/-- The blocks of a chunk are read in order; PCM that is not empty is pushed. -/
def readBlocks (d : Decoder ρ) (resampler : ρ) : List Text → Reading ρ
  | [] => { resampler }
  | block :: rest =>
    let assembled := readBlock block
    if assembled = [] then readBlocks d resampler rest
    else if assembled = "[DONE]".toList then { resampler, ending := .done }
    else
      match (d.parse assembled).bind audioData with
      | none => readBlocks d resampler rest
      | some audio =>
        match d.base64 audio with
        | none => { resampler, ending := .failed }
        | some bytes =>
          let processed := d.process resampler (samples bytes)
          let later := readBlocks d processed.1 rest
          { later with audio := if processed.2 = [] then later.audio else processed.2 :: later.audio }

theorem readBlocks_append (d : Decoder ρ) (resampler : ρ) (front back : List Text) :
    readBlocks d resampler (front ++ back) =
      let reading := readBlocks d resampler front
      if reading.ending = .drained then
        { readBlocks d reading.resampler back with
          audio := reading.audio ++ (readBlocks d reading.resampler back).audio }
      else reading := by
  induction front generalizing resampler with
  | nil => rfl
  | cons block rest ih =>
    simp only [List.cons_append, readBlocks]
    split
    next => exact ih resampler
    split
    next => rfl
    split
    next => exact ih resampler
    split
    next => rfl
    next bytes _ =>
      rw [ih]
      simp only
      split
      next =>
        split
        next => rfl
        next => rfl
      next => rfl

def oneSample : Decoder Unit where
  parse _ := some (.object [("choices", .array [.object [("delta", .object [("audio",
    .object [("data", .string [])])])]])])
  base64 _ := some [1, 0]
  fresh := ()
  process _ pcm := ((), pcm)

def oneEvent : List UInt8 := [0x64, 0x61, 0x74, 0x61, 0x3a, 0x20, 0x31, 0x0a, 0x0a]

inductive Phase where
  | spawned
  | requested
  | streaming
  | broken
  | ended
  | skipped
  | failed
  deriving DecidableEq

/-- One call of `synthesize`, in the task that was spawned for it. `queue` is the PCM of the
chunk being processed that is still to be pushed. The last fields are a record: the chunks
received, and how many cancels there had been when the call began and when the chunk came. -/
structure Synthesis (ρ : Type) where
  turn : Nat
  phase : Phase := .spawned
  buffer : Text := []
  resampler : ρ
  queue : List Pcm := []
  received : List (List UInt8) := []
  begun : Nat := 0
  read : Nat := 0

/-- One `on_audio` call: for which `synthesize`, the cancels there had been when that began,
when the chunk came, and now. -/
structure Heard where
  call : Nat
  turn : Nat
  pcm : Pcm
  begun : Nat
  read : Nat
  cancels : Nat
  deriving DecidableEq

/-- `calls` holds the sentences in the order of the replies. The last fields are a record. -/
structure Handle (ρ : Type) where
  cancelled : Bool := false
  calls : List (Synthesis ρ) := []
  turnEnds : Nat := 0
  heard : List Heard := []
  cancels : Nat := 0

inductive Action where
  | spawn (turn : Nat)
  | synthesize (i : Nat)
  | respond (i : Nat) (ok : Bool)
  | chunk (i : Nat) (bytes : List UInt8)
  | push (i : Nat)
  | finish (i : Nat)
  | abort (i : Nat)
  | cancel

def Phase.returned : Phase → Bool
  | .ended | .skipped | .failed => true
  | _ => false

namespace Synthesis

def drain (c : Synthesis ρ) (bytes : List UInt8) : List Text × Text :=
  drainBlocks (withoutReturns (c.buffer ++ decoded bytes))

def reading (d : Decoder ρ) (c : Synthesis ρ) (bytes : List UInt8) : Reading ρ :=
  readBlocks d c.resampler (c.drain bytes).1

def begin_ (c : Synthesis ρ) (cancelled : Bool) (cancels : Nat) : Option (Synthesis ρ) :=
  if c.phase = .spawned then
    some { c with phase := if cancelled then .skipped else .requested, begun := cancels }
  else none

def respond (d : Decoder ρ) (c : Synthesis ρ) (ok : Bool) : Option (Synthesis ρ) :=
  if c.phase = .requested then
    some { c with phase := if ok then .streaming else .failed, resampler := d.fresh }
  else none

def chunk (d : Decoder ρ) (c : Synthesis ρ) (bytes : List UInt8) (cancels : Nat) :
    Option (Synthesis ρ) :=
  if c.phase = .streaming ∧ c.queue = [] then
    let reading := c.reading d bytes
    some { c with
      phase := if reading.ending = .failed then .broken else .streaming
      buffer := if reading.ending = .done then [] else (c.drain bytes).2
      resampler := reading.resampler
      queue := reading.audio
      received := c.received ++ [bytes]
      read := cancels }
  else none

/-- The stream is at its end, or the error of the last chunk is returned. -/
def finish (c : Synthesis ρ) : Option (Synthesis ρ) :=
  if c.queue = [] then
    match c.phase with
    | .streaming => some { c with phase := .ended }
    | .broken => some { c with phase := .failed }
    | _ => none
  else none

def abort (c : Synthesis ρ) : Option (Synthesis ρ) :=
  if c.phase = .streaming ∧ c.queue = [] then some { c with phase := .failed } else none

end Synthesis

namespace Handle

def setCall (h : Handle ρ) (i : Nat) (c : Synthesis ρ) : Handle ρ := { h with calls := h.calls.set i c }

def push (h : Handle ρ) (i : Nat) (c : Synthesis ρ) : Option (Handle ρ) :=
  match c.queue with
  | [] => none
  | pcm :: rest =>
    some { h.setCall i { c with queue := rest } with
      heard := h.heard ++ [⟨i, c.turn, pcm, c.begun, c.read, h.cancels⟩] }

def finish (h : Handle ρ) (i : Nat) (c : Synthesis ρ) : Option (Handle ρ) :=
  c.finish.map fun next =>
    { h.setCall i next with turnEnds := if next.phase = .ended then h.turnEnds + 1 else h.turnEnds }

end Handle

def step (d : Decoder ρ) (h : Handle ρ) : Action → Option (Handle ρ)
  | .spawn turn => some { h with calls := h.calls ++ [{ turn, resampler := d.fresh }] }
  | .synthesize i => h.calls[i]?.bind fun c => (c.begin_ h.cancelled h.cancels).map (h.setCall i)
  | .respond i ok => h.calls[i]?.bind fun c => (c.respond d ok).map (h.setCall i)
  | .chunk i bytes => h.calls[i]?.bind fun c => (c.chunk d bytes h.cancels).map (h.setCall i)
  | .push i => h.calls[i]?.bind (h.push i)
  | .finish i => h.calls[i]?.bind (h.finish i)
  | .abort i => h.calls[i]?.bind fun c => c.abort.map (h.setCall i)
  | .cancel => some { h with cancelled := true, cancels := h.cancels + 1 }

inductive CallStep (d : Decoder ρ) (h : Handle ρ) (i : Nat) (c : Synthesis ρ) :
    Action → Synthesis ρ → Prop
  | skips (spawned : c.phase = .spawned) (set : h.cancelled = true) :
      CallStep d h i c (.synthesize i) { c with phase := .skipped, begun := h.cancels }
  | requests (spawned : c.phase = .spawned) (clear : h.cancelled = false) :
      CallStep d h i c (.synthesize i) { c with phase := .requested, begun := h.cancels }
  | responds (requested : c.phase = .requested) :
      CallStep d h i c (.respond i true) { c with phase := .streaming, resampler := d.fresh }
  | refused (requested : c.phase = .requested) :
      CallStep d h i c (.respond i false) { c with phase := .failed, resampler := d.fresh }
  | reads (bytes : List UInt8) (streaming : c.phase = .streaming) (idle : c.queue = []) :
      CallStep d h i c (.chunk i bytes) { c with
        phase := if (c.reading d bytes).ending = .failed then .broken else .streaming
        buffer := if (c.reading d bytes).ending = .done then [] else (c.drain bytes).2
        resampler := (c.reading d bytes).resampler
        queue := (c.reading d bytes).audio
        received := c.received ++ [bytes]
        read := h.cancels }
  | pushes (pcm : Pcm) (rest : List Pcm) (queued : c.queue = pcm :: rest) :
      CallStep d h i c (.push i) { c with queue := rest }
  | ends (streaming : c.phase = .streaming) (idle : c.queue = []) :
      CallStep d h i c (.finish i) { c with phase := .ended }
  | fails (broken : c.phase = .broken) (idle : c.queue = []) :
      CallStep d h i c (.finish i) { c with phase := .failed }
  | aborts (streaming : c.phase = .streaming) (idle : c.queue = []) :
      CallStep d h i c (.abort i) { c with phase := .failed }

/-- What a step adds to the record of the `on_audio` calls. -/
def pushed (h : Handle ρ) (i : Nat) (c : Synthesis ρ) : Action → List Heard
  | .push _ => (c.queue.head?.map fun pcm => ⟨i, c.turn, pcm, c.begun, c.read, h.cancels⟩).toList
  | _ => []

structure Steps (d : Decoder ρ) (h next : Handle ρ) (i : Nat) (c after : Synthesis ρ) (action : Action) :
    Prop where
  at_ : h.calls[i]? = some c
  moves : CallStep d h i c action after
  calls : next.calls = h.calls.set i after
  heard : next.heard = h.heard ++ pushed h i c action
  cancelled : next.cancelled = h.cancelled
  cancels : next.cancels = h.cancels

theorem step_cases {d : Decoder ρ} {h next : Handle ρ} {action : Action}
    (taken : step d h action = some next) :
    (∃ turn, next = { h with calls := h.calls ++ [{ turn, resampler := d.fresh }] }) ∨
      (action = .cancel ∧ next = { h with cancelled := true, cancels := h.cancels + 1 }) ∨
      ∃ i c after, Steps d h next i c after action := by
  have plain : ∀ {i : Nat} {c after : Synthesis ρ}, h.calls[i]? = some c → CallStep d h i c action after →
      pushed h i c action = [] → next = h.setCall i after → Steps d h next i c after action := by
    rintro i c after at_ moves quiet rfl
    refine ⟨at_, moves, rfl, ?_, rfl, rfl⟩
    rw [quiet, List.append_nil]
    rfl
  cases action with
  | spawn turn =>
    cases taken
    exact Or.inl ⟨turn, rfl⟩
  | cancel =>
    cases taken
    exact Or.inr (Or.inl ⟨rfl, rfl⟩)
  | synthesize i =>
    obtain ⟨c, at_, moved⟩ := Option.bind_eq_some_iff.mp taken
    obtain ⟨after, begun, same⟩ := Option.map_eq_some_iff.mp moved
    unfold Synthesis.begin_ at begun
    split at begun
    next spawned =>
      cases begun
      cases flag : h.cancelled with
      | true =>
        rw [flag] at same
        exact Or.inr (Or.inr ⟨i, c, _, plain at_ (.skips spawned flag) rfl same.symm⟩)
      | false =>
        rw [flag] at same
        exact Or.inr (Or.inr ⟨i, c, _, plain at_ (.requests spawned flag) rfl same.symm⟩)
    next => cases begun
  | respond i ok =>
    obtain ⟨c, at_, moved⟩ := Option.bind_eq_some_iff.mp taken
    obtain ⟨after, responded, same⟩ := Option.map_eq_some_iff.mp moved
    unfold Synthesis.respond at responded
    split at responded
    next requested =>
      cases responded
      cases ok with
      | true => exact Or.inr (Or.inr ⟨i, c, _, plain at_ (.responds requested) rfl same.symm⟩)
      | false => exact Or.inr (Or.inr ⟨i, c, _, plain at_ (.refused requested) rfl same.symm⟩)
    next => cases responded
  | chunk i bytes =>
    obtain ⟨c, at_, moved⟩ := Option.bind_eq_some_iff.mp taken
    obtain ⟨after, read, same⟩ := Option.map_eq_some_iff.mp moved
    unfold Synthesis.chunk at read
    split at read
    next ready =>
      cases read
      exact Or.inr (Or.inr ⟨i, c, _, plain at_ (.reads bytes ready.1 ready.2) rfl same.symm⟩)
    next => cases read
  | push i =>
    obtain ⟨c, at_, moved⟩ := Option.bind_eq_some_iff.mp taken
    unfold Handle.push at moved
    split at moved
    next => cases moved
    next pcm rest queued =>
      cases moved
      refine Or.inr (Or.inr ⟨i, c, _, at_, .pushes pcm rest queued, rfl, ?_, rfl, rfl⟩)
      simp [pushed, queued]
  | finish i =>
    obtain ⟨c, at_, moved⟩ := Option.bind_eq_some_iff.mp taken
    obtain ⟨after, finished, rfl⟩ := Option.map_eq_some_iff.mp moved
    unfold Synthesis.finish at finished
    split at finished
    next idle =>
      split at finished
      next streaming =>
        cases finished
        refine Or.inr (Or.inr ⟨i, c, _, at_, .ends streaming idle, rfl, ?_, rfl, rfl⟩)
        exact (List.append_nil _).symm
      next broken =>
        cases finished
        refine Or.inr (Or.inr ⟨i, c, _, at_, .fails broken idle, rfl, ?_, rfl, rfl⟩)
        exact (List.append_nil _).symm
      next => cases finished
    next => cases finished
  | abort i =>
    obtain ⟨c, at_, moved⟩ := Option.bind_eq_some_iff.mp taken
    obtain ⟨after, aborted, same⟩ := Option.map_eq_some_iff.mp moved
    unfold Synthesis.abort at aborted
    split at aborted
    next ready =>
      cases aborted
      exact Or.inr (Or.inr ⟨i, c, _, plain at_ (.aborts ready.1 ready.2) rfl same.symm⟩)
    next => cases aborted

theorem pushed_eq {d : Decoder ρ} {h : Handle ρ} {i : Nat} {c after : Synthesis ρ} {action : Action}
    (moves : CallStep d h i c action after) :
    pushed h i c action = [] ∨ ∃ pcm, pcm :: after.queue = c.queue ∧
      pushed h i c action = [⟨i, c.turn, pcm, c.begun, c.read, h.cancels⟩] := by
  cases moves with
  | pushes pcm rest queued => exact Or.inr ⟨pcm, queued.symm, by simp [pushed, queued]⟩
  | skips | requests | responds | refused | reads | ends | fails | aborts => exact Or.inl rfl

theorem CallStep.turn_eq {d : Decoder ρ} {h : Handle ρ} {i : Nat} {c after : Synthesis ρ} {action : Action}
    (moves : CallStep d h i c action after) : after.turn = c.turn := by
  cases moves <;> rfl

theorem CallStep.not_returned {d : Decoder ρ} {h : Handle ρ} {i : Nat} {c after : Synthesis ρ}
    {action : Action} (moves : CallStep d h i c action after) (idle : c.queue = []) :
    c.phase.returned = false := by
  cases moves with
  | pushes pcm rest queued => cases idle.symm.trans queued
  | skips phase _ | requests phase _ | responds phase | refused phase | reads _ phase _ | ends phase _
    | fails phase _ | aborts phase _ => rw [phase]; rfl

/-- Only a call whose response is being read has something queued. -/
def Synthesis.Busy (c : Synthesis ρ) : Prop := c.queue ≠ [] → c.phase = .streaming ∨ c.phase = .broken

theorem CallStep.busy {d : Decoder ρ} {h : Handle ρ} {i : Nat} {c after : Synthesis ρ} {action : Action}
    (moves : CallStep d h i c action after) (busy : c.Busy) : after.Busy := by
  intro queued
  cases moves with
  | skips phase _ | requests phase _ | responds phase | refused phase =>
    rcases busy queued with other | other <;> cases phase.symm.trans other
  | reads bytes _ _ =>
    simp only
    split
    next => exact Or.inr rfl
    next => exact Or.inl rfl
  | pushes pcm rest same => exact busy (by rw [same]; exact List.cons_ne_nil _ _)
  | ends _ idle | fails _ idle | aborts _ idle => exact absurd idle queued

theorem Synthesis.Busy.idle {c : Synthesis ρ} (busy : c.Busy) (returned : c.phase.returned = true) :
    c.queue = [] := by
  by_contra queued
  rcases busy queued with phase | phase <;> rw [phase] at returned <;> cases returned

theorem Steps.getElem? {d : Decoder ρ} {h next : Handle ρ} {i : Nat} {c after : Synthesis ρ}
    {action : Action} (steps : Steps d h next i c after action) (j : Nat) :
    next.calls[j]? = if j = i then some after else h.calls[j]? := by
  rw [steps.calls, List.getElem?_set]
  have bound := (List.getElem?_eq_some_iff.mp steps.at_).1
  by_cases same : i = j
  · rw [if_pos same, if_pos same.symm, if_pos (same ▸ bound)]
  · rw [if_neg same, if_neg fun other => same other.symm]

theorem Steps.forall {d : Decoder ρ} {h next : Handle ρ} {i : Nat} {c after : Synthesis ρ} {action : Action}
    {P : Nat → Synthesis ρ → Prop} (steps : Steps d h next i c after action)
    (old : ∀ (j : Nat) (c : Synthesis ρ), h.calls[j]? = some c → P j c) (new : P i after)
    (j : Nat) (other : Synthesis ρ) (at_ : next.calls[j]? = some other) : P j other := by
  rw [steps.getElem? j] at at_
  split at at_
  next same =>
    cases at_
    exact same ▸ new
  next => exact old j other at_

theorem forall_spawned {calls : List (Synthesis ρ)} {c : Synthesis ρ} {P : Nat → Synthesis ρ → Prop}
    (old : ∀ (j : Nat) (c : Synthesis ρ), calls[j]? = some c → P j c) (new : P calls.length c)
    (j : Nat) (other : Synthesis ρ) (at_ : (calls ++ [c])[j]? = some other) : P j other := by
  rw [List.getElem?_append] at at_
  split at at_
  next => exact old j other at_
  next beyond =>
    obtain ⟨bound, _⟩ := List.getElem?_eq_some_iff.mp at_
    rw [List.length_singleton] at bound
    have index : j = calls.length := by omega
    subst index
    rw [Nat.sub_self] at at_
    cases at_
    exact new

end Fswtch.Seat.MimoTts
