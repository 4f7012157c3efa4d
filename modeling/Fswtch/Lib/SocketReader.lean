import Fswtch.Lib.PythonText

/-! Reading from a stream socket through a buffer. `recv` hands over the bytes in pieces of its
own choosing and nothing once the peer has closed; a reader receives until the buffer holds what
it wants. What it returns and leaves unread depends on the stream, not on the pieces. -/

namespace Fswtch.Lib.SocketReader
open Fswtch.Lib.PythonText

/-- What one `recv` returns, which is never empty while the socket is open. -/
structure Piece where
  first : UInt8
  others : List UInt8
  deriving DecidableEq

def Piece.bytes (p : Piece) : List UInt8 := p.first :: p.others

/-- The buffer and the pieces `recv` will return, after which the socket is closed. -/
structure Source where
  buf : List UInt8
  pieces : List Piece
  deriving DecidableEq

def Source.unread (s : Source) : List UInt8 := s.buf ++ s.pieces.flatMap Piece.bytes

variable {ε α β : Type}

abbrev Reader (ε α : Type) := ExceptT ε (StateM Source) α

def runOn (reader : Reader ε α) (s : Source) : Except ε α × Source := (ExceptT.run reader).run s

def Returns (reader : Reader ε α) (s : Source) (value : α) (rest : List UInt8) : Prop :=
  ∃ s', runOn reader s = (.ok value, s') ∧ s'.unread = rest

def Fails (reader : Reader ε α) (s : Source) (error : ε) (rest : List UInt8) : Prop :=
  ∃ s', runOn reader s = (.error error, s') ∧ s'.unread = rest

theorem runOn_bind (reader : Reader ε α) (next : α → Reader ε β) (s : Source) :
    runOn (reader >>= next) s =
      match runOn reader s with
      | (.ok value, s') => runOn (next value) s'
      | (.error error, s') => (.error error, s') := by
  change (match (ExceptT.run reader).run s with
    | (result, s') => (ExceptT.bindCont next result).run s') = _
  unfold runOn
  obtain ⟨result, s'⟩ := (ExceptT.run reader).run s
  cases result <;> rfl

theorem returns_pure (value : α) (s : Source) : Returns (pure value : Reader ε α) s value s.unread :=
  ⟨s, rfl, rfl⟩

theorem Returns.bind {reader : Reader ε α} {next : α → Reader ε β} {s : Source} {value : α} {result : β}
    {middle rest : List UInt8} (first : Returns reader s value middle)
    (second : ∀ s', s'.unread = middle → Returns (next value) s' result rest) :
    Returns (reader >>= next) s result rest := by
  obtain ⟨s', ran, left⟩ := first
  obtain ⟨s'', later, left'⟩ := second s' left
  refine ⟨s'', ?_, left'⟩
  rw [runOn_bind, ran]
  exact later

theorem Fails.bind {reader : Reader ε α} {s : Source} {error : ε} {rest : List UInt8}
    (failed : Fails reader s error rest) (next : α → Reader ε β) : Fails (reader >>= next) s error rest := by
  obtain ⟨s', ran, left⟩ := failed
  refine ⟨s', ?_, left⟩
  rw [runOn_bind, ran]

/-- Receives pieces until the buffer is `ready`, and fails with `closed` if the socket closes first. -/
def receive (closed : ε) (ready : List UInt8 → Bool) (buf : List UInt8) : List Piece → Except ε Unit × Source
  | [] => if ready buf then (.ok (), ⟨buf, []⟩) else (.error closed, ⟨buf, []⟩)
  | piece :: rest =>
    if ready buf then (.ok (), ⟨buf, piece :: rest⟩) else receive closed ready (buf ++ piece.bytes) rest

/-- Receiving never changes the stream, and it ends with the buffer ready or with all of it received. -/
theorem receive_cases (closed : ε) (ready : List UInt8 → Bool) (buf : List UInt8) (pieces : List Piece) :
    ∃ s', s'.unread = buf ++ pieces.flatMap Piece.bytes ∧
      (receive closed ready buf pieces = (.ok (), s') ∧ ready s'.buf = true ∨
        receive closed ready buf pieces = (.error closed, s') ∧ ready s'.buf = false ∧ s'.pieces = []) := by
  induction pieces generalizing buf with
  | nil =>
    refine ⟨⟨buf, []⟩, rfl, ?_⟩
    rw [receive]
    by_cases enough : ready buf = true
    · exact .inl ⟨if_pos enough, enough⟩
    · exact .inr ⟨if_neg enough, eq_false_of_ne_true enough, rfl⟩
  | cons piece rest ih =>
    rw [receive]
    by_cases enough : ready buf = true
    · exact ⟨⟨buf, piece :: rest⟩, rfl, .inl ⟨if_pos enough, enough⟩⟩
    · rw [if_neg enough, List.flatMap_cons, ← List.append_assoc]
      exact ih (buf ++ piece.bytes)

def fill (closed : ε) (ready : List UInt8 → Bool) : Reader ε Unit := fun s =>
  receive closed ready s.buf s.pieces

/-- Fills the buffer, then takes off its front what `cut` says. -/
def takeWhen (closed : ε) (ready : List UInt8 → Bool) (cut : List UInt8 → List UInt8 × List UInt8) :
    Reader ε (List UInt8) := do
  fill closed ready
  let s ← get
  set { s with buf := (cut s.buf).2 }
  pure (cut s.buf).1

theorem runOn_takeWhen (closed : ε) (ready : List UInt8 → Bool) (cut : List UInt8 → List UInt8 × List UInt8)
    (s : Source) :
    runOn (takeWhen closed ready cut) s =
      match receive closed ready s.buf s.pieces with
      | (.ok (), s') => (.ok (cut s'.buf).1, { s' with buf := (cut s'.buf).2 })
      | (.error error, s') => (.error error, s') := by
  have filled : runOn (fill closed ready) s = receive closed ready s.buf s.pieces := rfl
  rw [takeWhen, runOn_bind, filled]
  obtain ⟨result, s'⟩ := receive closed ready s.buf s.pieces
  cases result <;> rfl

/-- Bytes that come in later change neither that the buffer is ready nor what is taken off it. -/
structure Stable (ready : List UInt8 → Bool) (cut : List UInt8 → List UInt8 × List UInt8) : Prop where
  enough : ∀ buf back, ready buf = true → ready (buf ++ back) = true
  front : ∀ buf back, ready buf = true → cut (buf ++ back) = ((cut buf).1, (cut buf).2 ++ back)

section
variable {ready : List UInt8 → Bool} {cut : List UInt8 → List UInt8 × List UInt8}

theorem takeWhen_returns (closed : ε) (stable : Stable ready cut) {s : Source}
    (enough : ready s.unread = true) :
    Returns (takeWhen closed ready cut) s (cut s.unread).1 (cut s.unread).2 := by
  obtain ⟨s', same, ⟨ran, here⟩ | ⟨ran, short, all⟩⟩ := receive_cases closed ready s.buf s.pieces
  · have cuts := stable.front s'.buf (s'.pieces.flatMap Piece.bytes) here
    change cut s'.unread = _ at cuts
    rw [same] at cuts
    refine ⟨{ s' with buf := (cut s'.buf).2 }, ?_, (congrArg Prod.snd cuts).symm⟩
    rw [runOn_takeWhen, ran, Source.unread, cuts]
  · have whole : s'.buf = s.unread := by
      rw [Source.unread, ← same, Source.unread, all, List.flatMap_nil, List.append_nil]
    rw [whole, enough] at short
    cases short

theorem takeWhen_fails (closed : ε) (stable : Stable ready cut) {s : Source} (short : ready s.unread = false) :
    Fails (takeWhen closed ready cut) s closed s.unread := by
  obtain ⟨s', same, ⟨_, here⟩ | ⟨ran, _, _⟩⟩ := receive_cases closed ready s.buf s.pieces
  · have enough := stable.enough s'.buf (s'.pieces.flatMap Piece.bytes) here
    change ready s'.unread = true at enough
    rw [same] at enough
    cases enough.symm.trans short
  · refine ⟨s', ?_, same⟩
    rw [runOn_takeWhen, ran]

end

def newline : UInt8 := 10

def cutLine (buf : List UInt8) : List UInt8 × List UInt8 := (splitOnce [newline] buf).getD (buf, [])

def hasLine (buf : List UInt8) : Bool := decide (newline ∈ buf)

def readLine (closed : ε) : Reader ε (List UInt8) := takeWhen closed hasLine cutLine

theorem cutLine_append {line : List UInt8} (clean : newline ∉ line) (back : List UInt8) :
    cutLine (line ++ newline :: back) = (line, back) := by
  have split := splitOnce_append clean [] back
  rw [List.append_assoc, List.singleton_append] at split
  rw [cutLine, split]
  rfl

theorem stable_line : Stable hasLine cutLine where
  enough buf back has := decide_eq_true (List.mem_append_left back (of_decide_eq_true has))
  front buf back has := by
    obtain ⟨line, rest, rfl, clean⟩ := List.eq_append_cons_of_mem (of_decide_eq_true has)
    rw [List.append_assoc, List.cons_append, cutLine_append clean, cutLine_append clean]

theorem readLine_returns (closed : ε) {s : Source} {line rest : List UInt8}
    (stream : s.unread = line ++ newline :: rest) (clean : newline ∉ line) :
    Returns (readLine closed) s line rest := by
  have has : hasLine s.unread = true := decide_eq_true (stream ▸ List.mem_append_right _ List.mem_cons_self)
  have taken := takeWhen_returns closed stable_line has
  rwa [stream, cutLine_append clean] at taken

theorem readLine_fails (closed : ε) {s : Source} (none : newline ∉ s.unread) :
    Fails (readLine closed) s closed s.unread :=
  takeWhen_fails closed stable_line (decide_eq_false none)

/-- `n` bytes off the front; of a negative `n` the buffer keeps that many at its end. -/
def readSlice (closed : ε) (n : Int) : Reader ε (List UInt8) :=
  takeWhen closed (fun buf => decide (n ≤ buf.length)) (sliceAt n)

theorem stable_length (n : Nat) : Stable (fun buf => decide ((n : Int) ≤ buf.length)) (sliceAt n) where
  enough buf back enough := by
    have bound := of_decide_eq_true enough
    exact decide_eq_true (by rw [List.length_append]; omega)
  front buf back enough := by
    have bound := of_decide_eq_true enough
    rw [sliceAt_nat, sliceAt_nat, List.take_append_of_le_length (by omega),
      List.drop_append_of_le_length (by omega)]

theorem readSlice_returns (closed : ε) {s : Source} {body rest : List UInt8} (stream : s.unread = body ++ rest) :
    Returns (readSlice closed body.length) s body rest := by
  have enough : decide (((body.length : Nat) : Int) ≤ s.unread.length) = true :=
    decide_eq_true (by rw [stream, List.length_append]; omega)
  have taken := takeWhen_returns closed (stable_length body.length) enough
  rwa [stream, sliceAt_nat, List.take_left, List.drop_left] at taken

end Fswtch.Lib.SocketReader
