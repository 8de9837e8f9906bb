import Enrollment.Proofs.Nonce.Pool

/-! # Pools that are shared

Callers draw nonces from one pool and put nonces into it, any number of them at once and in any
order. A draw that finds the pool empty asks the server and waits, and others come in between. To
all of them the pool is a queue: nonces leave it in the order in which they came.
-/

namespace Enrollment

structure SharedPool where
  pool : NoncePool
  /-- How many draws have asked the server; they are known by number. -/
  asked : Nat
  waiting : List Nat

namespace SharedPool

inductive Move where
  | draw
  /-- The server's reply to a draw. -/
  | reply (draw : Nat) (reply : NonceReply)
  | save (text : String)
  | absorb (headers : Http.Headers)

/-- What comes of a move. -/
inductive Deed where
  | drew (nonce : ReplayNonce)
  | asked (draw : Nat)
  | replied (draw : Nat) (result : Except NonceDrawError ReplayNonce)
  | saved (result : Except NonceError ReplayNonce)
  | absorbed (result : Except NonceError (Option ReplayNonce))

def Deed.fails : Deed → Bool
  | drew _ | asked _ => false
  | replied _ result => !result.isOk
  | saved result => !result.isOk
  | absorbed result => !result.isOk

/-- The nonce that a move is to put into the pool, if there is one that can be read. -/
def Move.nonce? : Move → Option ReplayNonce
  | save text => (ReplayNonce.parse text).toOption
  | absorb headers => (ReplayNonce.ofHeaders headers).toOption.join
  | draw | reply _ _ => none

def move? (s : SharedPool) : Move → Option (Deed × SharedPool)
  | .draw =>
    match s.pool.take? with
    | some (nonce, rest) => some (.drew nonce, { s with pool := rest })
    | none =>
      some (.asked s.asked, { s with asked := s.asked + 1, waiting := s.waiting ++ [s.asked] })
  | .reply draw reply =>
    if draw ∈ s.waiting then
      some (.replied draw (ReplayNonce.ofReply reply), { s with waiting := s.waiting.erase draw })
    else none
  | .save text =>
    match s.pool.save text with
    | .ok (nonce, pool) => some (.saved (.ok nonce), { s with pool })
    | .error e => some (.saved (.error e), s)
  | .absorb headers =>
    match s.pool.absorb headers with
    | .ok (nonce?, pool) => some (.absorbed (.ok nonce?), { s with pool })
    | .error e => some (.absorbed (.error e), s)

structure Event where
  deed : Deed
  before : NoncePool
  after : NoncePool

namespace Event

/-- The nonces that have come into the pool. -/
def entered (e : Event) : List ReplayNonce := e.after.nonces.filter (· ∉ e.before.nonces)

/-- The nonces that have gone out of it. -/
def left (e : Event) : List ReplayNonce := e.before.nonces.filter (· ∉ e.after.nonces)

end Event

/-- A run from a new pool, with what has happened. -/
inductive Run (capacity : Nat) : List Event → SharedPool → Prop where
  | new {pool : NoncePool} (h : NoncePool.withCapacity capacity = .ok pool) :
    Run capacity [] ⟨pool, 0, []⟩
  | move {past : List Event} {s t : SharedPool} {deed : Deed} (m : Move) (run : Run capacity past s)
    (moves : s.move? m = some (deed, t)) : Run capacity (past ++ [⟨deed, s.pool, t.pool⟩]) t

section

variable {capacity : Nat} {past : List Event} {s t : SharedPool} {m : Move} {deed : Deed}
  {nonce : ReplayNonce}

theorem parse_of_nonce? (h : m.nonce? = some nonce) :
    ReplayNonce.parse nonce.text = .ok nonce := by
  cases m with
  | save text =>
    cases hParse : ReplayNonce.parse text with
    | error e => simp [Move.nonce?, hParse, Except.toOption] at h
    | ok parsed =>
      obtain rfl : parsed = nonce := by simpa [Move.nonce?, hParse, Except.toOption] using h
      exact ReplayNonce.parse_text hParse
  | absorb headers =>
    cases hHeaders : ReplayNonce.ofHeaders headers with
    | error e => simp [Move.nonce?, hHeaders, Except.toOption] at h
    | ok nonce? =>
      obtain rfl : nonce? = some nonce := by
        simpa [Move.nonce?, hHeaders, Except.toOption] using h
      obtain ⟨text, hParse⟩ := ReplayNonce.parse_of_ofHeaders hHeaders
      exact ReplayNonce.parse_text hParse
  | draw | reply => cases h

/-! ### What a move does -/

theorem move?_draw_of_cons {oldest : ReplayNonce} {others : List ReplayNonce}
    (h : s.pool.nonces = oldest :: others) :
    s.move? .draw =
      some (.drew oldest, { s with pool := { s.pool with nonces := others } }) := by
  simp only [move?, NoncePool.take?_of_cons h]

theorem move?_draw_of_nil (h : s.pool.nonces = []) :
    s.move? .draw = some (.asked s.asked,
      { s with asked := s.asked + 1, waiting := s.waiting ++ [s.asked] }) := by
  simp only [move?, NoncePool.take?_of_nil h]

theorem move?_of_nonce? (s : SharedPool) (h : m.nonce? = some nonce) :
    ∃ deed, s.move? m = some (deed, { s with pool := s.pool.put nonce }) ∧
      deed.fails = false := by
  cases m with
  | save text =>
    cases hParse : ReplayNonce.parse text with
    | error e => simp [Move.nonce?, hParse, Except.toOption] at h
    | ok parsed =>
      obtain rfl : parsed = nonce := by simpa [Move.nonce?, hParse, Except.toOption] using h
      refine ⟨.saved (.ok parsed), ?_, rfl⟩
      simp only [move?, NoncePool.save, hParse, Except.map]
  | absorb headers =>
    cases hHeaders : ReplayNonce.ofHeaders headers with
    | error e => simp [Move.nonce?, hHeaders, Except.toOption] at h
    | ok nonce? =>
      obtain rfl : nonce? = some nonce := by
        simpa [Move.nonce?, hHeaders, Except.toOption] using h
      refine ⟨.absorbed (.ok (some nonce)), ?_, rfl⟩
      simp only [move?, NoncePool.absorb, hHeaders, Except.map]
  | draw | reply => cases h

/-- All that a move can do to the pool: a draw takes the oldest nonce if there is one, a nonce that
can be read is put, and everything else leaves the pool as it is. -/
theorem pool_of_move? (moves : s.move? m = some (deed, t)) :
    (∃ nonce, deed = .drew nonce ∧ s.pool.take? = some (nonce, t.pool)) ∨
      (∃ nonce, m.nonce? = some nonce ∧ deed.fails = false ∧ t.pool = s.pool.put nonce) ∨
      t.pool = s.pool := by
  cases m with
  | draw =>
    cases hTake : s.pool.take? with
    | none =>
      simp only [move?, hTake, Option.some.injEq, Prod.mk.injEq] at moves
      exact .inr (.inr (moves.2 ▸ rfl))
    | some taken =>
      obtain ⟨nonce, rest⟩ := taken
      simp only [move?, hTake, Option.some.injEq, Prod.mk.injEq] at moves
      obtain ⟨rfl, rfl⟩ := moves
      exact .inl ⟨nonce, rfl, rfl⟩
  | reply draw reply =>
    simp only [move?] at moves
    split at moves
    · cases moves
      exact .inr (.inr rfl)
    · cases moves
  | save text =>
    cases hParse : ReplayNonce.parse text with
    | error e =>
      simp only [move?, NoncePool.save, hParse, Except.map, Option.some.injEq,
        Prod.mk.injEq] at moves
      exact .inr (.inr (moves.2 ▸ rfl))
    | ok nonce =>
      have found : Move.nonce? (.save text) = some nonce := by
        simp [Move.nonce?, hParse, Except.toOption]
      obtain ⟨done, hMove, hDone⟩ := s.move?_of_nonce? found
      cases hMove.symm.trans moves
      exact .inr (.inl ⟨nonce, found, hDone, rfl⟩)
  | absorb headers =>
    cases hNonce : Move.nonce? (.absorb headers) with
    | none =>
      cases hHeaders : ReplayNonce.ofHeaders headers with
      | error e =>
        simp only [move?, NoncePool.absorb, hHeaders, Except.map, Option.some.injEq,
          Prod.mk.injEq] at moves
        exact .inr (.inr (moves.2 ▸ rfl))
      | ok nonce? =>
        obtain rfl : nonce? = none := by
          simpa [Move.nonce?, hHeaders, Except.toOption] using hNonce
        simp only [move?, NoncePool.absorb, hHeaders, Except.map, Option.some.injEq,
          Prod.mk.injEq] at moves
        exact .inr (.inr (moves.2 ▸ rfl))
    | some nonce =>
      obtain ⟨done, hMove, hDone⟩ := s.move?_of_nonce? hNonce
      cases hMove.symm.trans moves
      exact .inr (.inl ⟨nonce, rfl, hDone, rfl⟩)

theorem pool_of_fails (moves : s.move? m = some (deed, t)) (hFails : deed.fails = true) :
    t.pool = s.pool := by
  rcases pool_of_move? moves with ⟨nonce, rfl, -⟩ | ⟨nonce, -, hDone, -⟩ | hPool
  · cases hFails
  · exact absurd (hDone.symm.trans hFails) Bool.false_ne_true
  · exact hPool

theorem move?_reply {draw : Nat} (h : draw ∈ s.waiting) (reply : NonceReply) :
    s.move? (.reply draw reply) =
      some (.replied draw (ReplayNonce.ofReply reply),
        { s with waiting := s.waiting.erase draw }) := if_pos h

theorem move?_eq_asked_iff {draw : Nat} : s.move? m = some (.asked draw, t) ↔
    m = .draw ∧ s.pool.nonces = [] ∧ draw = s.asked ∧
      t = { s with asked := s.asked + 1, waiting := s.waiting ++ [s.asked] } := by
  constructor
  · intro moves
    cases m with
    | draw =>
      cases hNonces : s.pool.nonces with
      | nil =>
        rw [move?_draw_of_nil hNonces] at moves
        cases moves
        exact ⟨rfl, rfl, rfl, rfl⟩
      | cons oldest others =>
        rw [move?_draw_of_cons hNonces] at moves
        cases moves
    | reply | save | absorb =>
      simp only [move?] at moves
      split at moves <;> cases moves
  · rintro ⟨rfl, hNonces, rfl, rfl⟩
    exact move?_draw_of_nil hNonces

theorem draw_of_moves {reply : NonceReply} {next : SharedPool} {draw : Nat}
    (asks : s.move? .draw = some (.asked draw, t))
    (replies : t.move? (.reply draw reply) = some (deed, next)) :
    deed = .replied draw (s.pool.draw reply).1 ∧ next.pool = (s.pool.draw reply).2 := by
  obtain ⟨-, hNonces, rfl, rfl⟩ := move?_eq_asked_iff.mp asks
  have hDraw : s.pool.draw reply = (ReplayNonce.ofReply reply, s.pool) := by
    rw [NoncePool.draw, NoncePool.take?_of_nil hNonces]
  rw [move?_reply (List.mem_append_right _ (List.mem_singleton_self _))] at replies
  cases replies
  rw [hDraw]
  exact ⟨rfl, rfl⟩

theorem waiting_of_move? (moves : s.move? m = some (deed, t)) {draw : Nat}
    (h : draw ∈ t.waiting) :
    draw ∈ s.waiting ∨ (deed = .asked draw ∧ s.pool.nonces = []) := by
  cases m with
  | draw =>
    cases hNonces : s.pool.nonces with
    | nil =>
      rw [move?_draw_of_nil hNonces] at moves
      cases moves
      rcases List.mem_append.mp h with hOld | hNew
      · exact .inl hOld
      · exact .inr ⟨congrArg Deed.asked (List.mem_singleton.mp hNew).symm, rfl⟩
    | cons oldest others =>
      rw [move?_draw_of_cons hNonces] at moves
      cases moves
      exact .inl h
  | reply =>
    simp only [move?] at moves
    split at moves
    · cases moves
      exact .inl (List.mem_of_mem_erase h)
    · cases moves
  | save | absorb =>
    simp only [move?] at moves
    split at moves <;>
      · cases moves
        exact .inl h

/-! ### The queue -/

/-- The nonces behind which others come are those that are left when some have gone. -/
structure Event.Queues (e : Event) (gone come : List ReplayNonce) : Prop where
  passes : e.before.nonces ++ come = gone ++ e.after.nonces
  new : ∀ nonce ∈ come, nonce ∉ e.before.nonces
  old : gone <+: e.before.nonces

theorem Event.Queues.eq {e : Event} {gone come : List ReplayNonce} (h : e.Queues gone come)
    (hNodup : e.before.nonces.Nodup) : e.entered = come ∧ e.left = gone := by
  obtain ⟨kept, hBefore⟩ := h.old
  have hAfter : e.after.nonces = kept ++ come := by
    have hPasses := h.passes
    rw [← hBefore, List.append_assoc] at hPasses
    exact (List.append_cancel_left hPasses).symm
  have hApart : ∀ nonce ∈ gone, nonce ∉ kept := by
    rw [← hBefore] at hNodup
    exact fun nonce hGone hKept => List.disjoint_of_nodup_append hNodup hGone hKept
  have hNew := h.new
  rw [← hBefore] at hNew
  constructor
  · have hKept : kept.filter (· ∉ e.before.nonces) = [] :=
      List.filter_eq_nil_iff.mpr fun nonce hMem => by simp [← hBefore, hMem]
    have hCome : come.filter (· ∉ e.before.nonces) = come :=
      List.filter_eq_self.mpr fun nonce hMem => by simpa [← hBefore] using hNew nonce hMem
    rw [Event.entered, hAfter, List.filter_append, hKept, hCome, List.nil_append]
  · have hGone : gone.filter (· ∉ e.after.nonces) = gone :=
      List.filter_eq_self.mpr fun nonce hMem => by
        have hCome : nonce ∉ come := fun h => hNew nonce h (List.mem_append_left _ hMem)
        simpa [hAfter] using ⟨hApart nonce hMem, hCome⟩
    have hKept : kept.filter (· ∉ e.after.nonces) = [] :=
      List.filter_eq_nil_iff.mpr fun nonce hMem => by simp [hAfter, hMem]
    rw [Event.left, ← hBefore, List.filter_append, hGone, hKept, List.append_nil]

theorem queues_of_put {pool : NoncePool} (kept : pool.WellKept capacity) (hPos : 0 < capacity) :
    ∃ gone come, Event.Queues ⟨deed, pool, pool.put nonce⟩ gone come := by
  have hCapacity := kept.capacity_eq
  have hLe := kept.size_le
  by_cases hMem : nonce ∈ pool.nonces
  · refine ⟨[], [], ?_, by simp, List.nil_prefix⟩
    simp only [NoncePool.put_of_mem hMem, List.append_nil, List.nil_append]
  by_cases hFull : pool.size = pool.capacity
  · cases hNonces : pool.nonces with
    | nil =>
      have hEmpty : pool.size = 0 := congrArg List.length hNonces
      omega
    | cons oldest others =>
      refine ⟨[oldest], [nonce], ?_, by simpa using hMem, ?_⟩
      · simp only [NoncePool.put_of_full hMem hFull, hNonces, List.tail_cons, List.cons_append,
          List.nil_append]
      · simp only [hNonces, List.cons_prefix_cons, List.nil_prefix, and_self]
  · refine ⟨[], [nonce], ?_, by simpa using hMem, List.nil_prefix⟩
    rw [NoncePool.put_of_room hMem (by omega), List.nil_append]

theorem queues_of_move? (kept : s.pool.WellKept capacity) (hPos : 0 < capacity)
    (moves : s.move? m = some (deed, t)) :
    ∃ gone come, Event.Queues ⟨deed, s.pool, t.pool⟩ gone come := by
  rcases pool_of_move? moves with ⟨nonce, -, hTake⟩ | ⟨nonce, -, -, hPut⟩ | hSame
  · obtain ⟨hNonces, -⟩ := NoncePool.take?_eq_some_iff.mp hTake
    refine ⟨[nonce], [], ?_, by simp, ?_⟩
    · simp only [hNonces, List.append_nil, List.cons_append, List.nil_append]
    · simp only [hNonces, List.cons_prefix_cons, List.nil_prefix, and_self]
  · rw [hPut]
    exact queues_of_put kept hPos
  · refine ⟨[], [], ?_, by simp, List.nil_prefix⟩
    simp only [hSame, List.append_nil, List.nil_append]

theorem wellKept_of_move? (kept : s.pool.WellKept capacity) (hPos : 0 < capacity)
    (moves : s.move? m = some (deed, t)) : t.pool.WellKept capacity := by
  rcases pool_of_move? moves with ⟨nonce, -, hTake⟩ | ⟨nonce, hNonce, -, hPut⟩ | hSame
  · exact kept.take hTake
  · rw [hPut]
    exact kept.put hPos (parse_of_nonce? hNonce)
  · rwa [hSame]

theorem balance_of_move? (kept : s.pool.WellKept capacity) (hPos : 0 < capacity)
    (moves : s.move? m = some (deed, t)) :
    s.pool.nonces ++ Event.entered ⟨deed, s.pool, t.pool⟩ =
      Event.left ⟨deed, s.pool, t.pool⟩ ++ t.pool.nonces := by
  obtain ⟨gone, come, queues⟩ := queues_of_move? kept hPos moves
  obtain ⟨hEntered, hLeft⟩ := queues.eq kept.nodup
  rw [hEntered, hLeft]
  exact queues.passes

end

/-! ### Runs -/

namespace Run

variable {capacity : Nat} {past : List Event} {s : SharedPool}

theorem capacity_pos (run : Run capacity past s) : 0 < capacity := by
  induction run with
  | new h =>
    unfold NoncePool.withCapacity at h
    split at h
    · cases h
    · omega
  | move m run moves ih => exact ih

theorem wellKept (run : Run capacity past s) : s.pool.WellKept capacity := by
  induction run with
  | new h => exact .new h
  | move m run moves ih => exact wellKept_of_move? ih run.capacity_pos moves

theorem ordered (run : Run capacity past s) :
    past.flatMap Event.entered = past.flatMap Event.left ++ s.pool.nonces := by
  induction run with
  | new h =>
    unfold NoncePool.withCapacity at h
    split at h
    · cases h
    · cases h
      rfl
  | @move past s t deed m run moves ih =>
    calc (past ++ [Event.mk deed s.pool t.pool]).flatMap Event.entered
        = past.flatMap Event.left ++ (s.pool.nonces ++ Event.entered ⟨deed, s.pool, t.pool⟩) := by
          rw [List.flatMap_append, List.flatMap_singleton, ih, List.append_assoc]
      _ = past.flatMap Event.left ++ (Event.left ⟨deed, s.pool, t.pool⟩ ++ t.pool.nonces) := by
          rw [balance_of_move? run.wellKept run.capacity_pos moves]
      _ = (past ++ [Event.mk deed s.pool t.pool]).flatMap Event.left ++ t.pool.nonces := by
          rw [List.flatMap_append, List.flatMap_singleton, List.append_assoc]

/-- Who waits for the server has asked it, and has found the pool empty then. -/
theorem asked_of_waiting (run : Run capacity past s) {draw : Nat} (h : draw ∈ s.waiting) :
    ∃ e ∈ past, e.deed = .asked draw ∧ e.before.nonces = [] := by
  induction run with
  | new => cases h
  | move m run moves ih =>
    rcases waiting_of_move? moves h with hOld | ⟨hDeed, hNonces⟩
    · obtain ⟨e, hMem, hAsked⟩ := ih hOld
      exact ⟨e, List.mem_append_left _ hMem, hAsked⟩
    · exact ⟨_, List.mem_append_right _ (List.mem_singleton_self _), hDeed, hNonces⟩

end Run

end SharedPool

end Enrollment
