import Enrollment.Proofs.Nonce.Sharing

/-! # What the callers of a shared pool can rely on

After any run the pool is a bounded queue without repetitions of nonces that can be read. Each
operation that comes next does to it what it would do to that queue, whoever else uses the pool
between a request for a nonce and the reply to it.
-/

namespace Enrollment.SharedPool

variable {capacity : Nat} {past : List Event} {s t : SharedPool} {m : Move} {deed : Deed}
  {nonce : ReplayNonce}

/-- The same with other nonces in the pool. -/
def holding (s : SharedPool) (nonces : List ReplayNonce) : SharedPool :=
  { s with pool := { s.pool with nonces } }

structure Refined (capacity : Nat) (past : List Event) (s : SharedPool) : Prop where
  bounded : s.pool.size ≤ capacity
  nodup : s.pool.nonces.Nodup
  accepted : ∀ nonce ∈ s.pool.nonces, ReplayNonce.parse nonce.text = .ok nonce
  /-- Nonces leave in the order in which they have come, and the others are in the pool. -/
  ordered : past.flatMap Event.entered = past.flatMap Event.left ++ s.pool.nonces
  draws : ∀ oldest others, s.pool.nonces = oldest :: others →
    s.move? .draw = some (.drew oldest, s.holding others)
  asks : ∀ m draw t, s.move? m = some (.asked draw, t) ↔
    m = .draw ∧ s.pool.nonces = [] ∧ draw = s.asked ∧
      t = { s with asked := s.asked + 1, waiting := s.waiting ++ [s.asked] }
  waits : ∀ draw ∈ s.waiting, ∃ e ∈ past, e.deed = .asked draw ∧ e.before.nonces = []
  /-- What is fetched goes to who has asked for it, whatever the pool holds by now. -/
  replies : ∀ draw ∈ s.waiting, ∀ reply, s.move? (.reply draw reply) =
    some (.replied draw (ReplayNonce.ofReply reply), { s with waiting := s.waiting.erase draw })
  /-- A draw whose reply comes before anything else does is one from the pool alone. -/
  alone : ∀ draw t reply deed next, s.move? .draw = some (.asked draw, t) →
    t.move? (.reply draw reply) = some (deed, next) →
      deed = .replied draw (s.pool.draw reply).1 ∧ next.pool = (s.pool.draw reply).2
  keeps : ∀ m nonce, m.nonce? = some nonce → nonce ∈ s.pool.nonces →
    ∃ deed, s.move? m = some (deed, s) ∧ deed.fails = false
  adds : ∀ m nonce, m.nonce? = some nonce → nonce ∉ s.pool.nonces → s.pool.size < capacity →
    ∃ deed, s.move? m = some (deed, s.holding (s.pool.nonces ++ [nonce])) ∧ deed.fails = false
  evicts : ∀ m nonce, m.nonce? = some nonce → nonce ∉ s.pool.nonces → s.pool.size = capacity →
    ∃ oldest others deed, s.pool.nonces = oldest :: others ∧
      s.move? m = some (deed, s.holding (others ++ [nonce])) ∧ deed.fails = false
  invalid : ∀ text e, ReplayNonce.parse text = .error e →
    s.move? (.save text) = some (.saved (.error e), s)
  unreadable : ∀ headers e, ReplayNonce.ofHeaders headers = .error e →
    s.move? (.absorb headers) = some (.absorbed (.error e), s)
  silent : ∀ headers, ReplayNonce.ofHeaders headers = .ok none →
    s.move? (.absorb headers) = some (.absorbed (.ok none), s)
  /-- No failure touches the pool, that of a request among them. -/
  failures : ∀ m deed t, s.move? m = some (deed, t) → deed.fails = true → t.pool = s.pool

theorem move?_of_mem (found : m.nonce? = some nonce) (hMem : nonce ∈ s.pool.nonces) :
    ∃ deed, s.move? m = some (deed, s) ∧ deed.fails = false := by
  obtain ⟨deed, moves, done⟩ := s.move?_of_nonce? found
  rw [NoncePool.put_of_mem hMem] at moves
  exact ⟨deed, moves, done⟩

theorem move?_of_room (found : m.nonce? = some nonce) (hNew : nonce ∉ s.pool.nonces)
    (hRoom : s.pool.size < s.pool.capacity) :
    ∃ deed, s.move? m = some (deed, s.holding (s.pool.nonces ++ [nonce])) ∧
      deed.fails = false := by
  obtain ⟨deed, moves, done⟩ := s.move?_of_nonce? found
  rw [NoncePool.put_of_room hNew hRoom] at moves
  exact ⟨deed, moves, done⟩

theorem move?_of_full {oldest : ReplayNonce} {others : List ReplayNonce}
    (found : m.nonce? = some nonce) (hNew : nonce ∉ s.pool.nonces)
    (hFull : s.pool.size = s.pool.capacity) (hNonces : s.pool.nonces = oldest :: others) :
    ∃ deed, s.move? m = some (deed, s.holding (others ++ [nonce])) ∧ deed.fails = false := by
  obtain ⟨deed, moves, done⟩ := s.move?_of_nonce? found
  rw [NoncePool.put_of_full hNew hFull, hNonces, List.tail_cons] at moves
  exact ⟨deed, moves, done⟩

theorem move?_save_of_error {text : String} {e : NonceError}
    (h : ReplayNonce.parse text = .error e) :
    s.move? (.save text) = some (.saved (.error e), s) := by
  simp only [move?, NoncePool.save, h, Except.map]

theorem move?_absorb_of_error {headers : Http.Headers} {e : NonceError}
    (h : ReplayNonce.ofHeaders headers = .error e) :
    s.move? (.absorb headers) = some (.absorbed (.error e), s) := by
  simp only [move?, NoncePool.absorb, h, Except.map]

theorem move?_absorb_of_none {headers : Http.Headers}
    (h : ReplayNonce.ofHeaders headers = .ok none) :
    s.move? (.absorb headers) = some (.absorbed (.ok none), s) := by
  simp only [move?, NoncePool.absorb, h, Except.map]

theorem Run.refined (run : Run capacity past s) : Refined capacity past s where
  bounded := run.wellKept.size_le
  nodup := run.wellKept.nodup
  accepted := run.wellKept.accepted
  ordered := run.ordered
  draws _ _ hNonces := move?_draw_of_cons hNonces
  asks _ _ _ := move?_eq_asked_iff
  waits _ hWaits := run.asked_of_waiting hWaits
  replies _ hWaits reply := move?_reply hWaits reply
  alone _ _ _ _ _ asks replies := draw_of_moves asks replies
  keeps _ _ found hMem := move?_of_mem found hMem
  adds _ _ found hNew hRoom := move?_of_room found hNew (run.wellKept.capacity_eq ▸ hRoom)
  evicts m nonce found hNew hFull := by
    have hPos := run.capacity_pos
    cases hNonces : s.pool.nonces with
    | nil =>
      have hEmpty : s.pool.size = 0 := congrArg List.length hNonces
      omega
    | cons oldest others =>
      obtain ⟨deed, moves, done⟩ :=
        move?_of_full found hNew (hFull.trans run.wellKept.capacity_eq.symm) hNonces
      exact ⟨oldest, others, deed, rfl, moves, done⟩
  invalid _ _ h := move?_save_of_error h
  unreadable _ _ h := move?_absorb_of_error h
  silent _ h := move?_absorb_of_none h
  failures _ _ _ moves fails := pool_of_fails moves fails

/-- While a draw waits for the server others fill the pool: a value comes twice, a third one pushes
the oldest out, and one cannot be read. The request then fails, and the next draw takes what is
oldest. -/
theorem refined_of_full_pool :
    ∃ past s, Run 2 past s ∧ s.pool.nonces = [⟨"Aw"⟩] ∧
      past.flatMap Event.left = [⟨"AQ"⟩, ⟨"Ag"⟩] ∧ Refined 2 past s := by
  have new : Run 2 [] ⟨⟨2, []⟩, 0, []⟩ := .new rfl
  have asked := Run.move .draw new rfl
  have first := Run.move (.save " AQ ") asked rfl
  have second := Run.move (.absorb [("replay-nonce", [0x41, 0x67])]) first rfl
  have again := Run.move (.save "AQ") second rfl
  have third := Run.move (.save "Aw") again rfl
  have unread := Run.move (.save "!") third rfl
  have failed := Run.move (.reply 0 (.error "timeout")) unread rfl
  have drawn := Run.move .draw failed rfl
  exact ⟨_, _, drawn, rfl, rfl, Run.refined drawn⟩

end Enrollment.SharedPool
