import FrontServer.Lemmas.ConnectionPool

/-!
# Connections released as bad

`release` first puts a bad connection back among the idle ones and then removes it. Both happen in one critical section, and every
`grab` takes its connection in one, so nobody gets hold of the connection in between.
-/

namespace FrontServer

variable {σ Env Conn Tid : Type} [DecidableEq Conn] [DecidableEq Tid]

namespace PoolState

/-- A thread is about to release the connection as bad, or has done so. -/
def GoingBad (status : σ → Conn → ConnStatus) (c : Conn) (s : PoolState σ Conn Tid) : Prop :=
  (∃ t, s.calls.lookup t = some (.releaseLock c true)) ∨ status s.pool.base c = .deleted

variable {base : ConnectionPool σ Env Conn} {status : σ → Conn → ConnStatus} {poolMaxDbCons : Int} {dbDefaultCharset : Bytes}
  {s s' : PoolState σ Conn Tid}

/-- A step keeps a bad connection bad, and gives it to nobody. -/
theorem GoingBad.step (hlaw : base.Lawful status) (hle : ∀ c, s.holders c ≤ s.pool.inUse status c) {c : Conn}
    (h : GoingBad status c s) {a : PoolAction Env Conn Tid} {r : PoolReply Conn}
    (hs : (machine base poolMaxDbCons).step s a = some (r, s')) : GoingBad status c s' ∧ r ≠ .grabbed (some c) := by
  rcases h with ⟨t, ht⟩ | hdeleted
  · have hused := inUse_of_holders hle (holders_pos ht rfl)
    refine ⟨?_, ?_⟩
    · rcases releaseLock_of_step hs ht with hstays | hpool
      · exact Or.inl ⟨t, hstays⟩
      · right
        rw [hpool]
        exact (DatabaseConnectionPool.status_releaseConn hlaw hused true).1
    · rintro rfl
      obtain ⟨t', ht'⟩ := grabCharset_of_grabbed hs
      cases eq_of_holders_le hle ht rfl ht' rfl
      cases ht.symm.trans ht'
  · refine ⟨Or.inr (deleted_of_step hlaw hle hdeleted hs), ?_⟩
    rintro rfl
    obtain ⟨t', ht'⟩ := grabCharset_of_grabbed hs
    cases hdeleted.symm.trans (inUse_of_holders hle (holders_pos ht' rfl))

/-- In every state reached a connection has at most one holder, and a `release` deletes only a connection that nobody has any more.
From the call of a `release` as bad on, no `grab` gives the connection to anyone. -/
theorem bad_connection_gone (base : ConnectionPool σ Env Conn) (status : σ → Conn → ConnStatus) (hlaw : base.Lawful status)
    (dbDefaultCharset : Bytes) (poolMaxDbCons : Int) (acts : List (PoolAction Env Conn Tid)) (replies : List (PoolReply Conn))
    (s : PoolState σ Conn Tid)
    (h : (machine base poolMaxDbCons).run (new base dbDefaultCharset) acts = some (replies, s)) :
    (∀ c, s.holders c ≤ 1) ∧
      (∀ t n r s', (machine base poolMaxDbCons).step s (.releaseLock t n) = some (r, s') →
        ∀ c, status s'.pool.base c = .deleted → s'.holders c = 0) ∧
      ∀ t c r s₁ acts₁ replies₁ s₂, (machine base poolMaxDbCons).step s (.callRelease t c true) = some (r, s₁) →
        (machine base poolMaxDbCons).run s₁ acts₁ = some (replies₁, s₂) → .grabbed (some c) ∉ replies₁ := by
  refine ⟨fun c => (holders_le hlaw h c).trans (s.pool.inUse_le_one status c), fun t n r s' hs c hdeleted => ?_,
    fun t c r s₁ acts₁ replies₁ s₂ hs hrun => ?_⟩
  · have hrun' := Machine.run_concat_eq_some.mpr ⟨s, replies, r, h, hs, rfl⟩
    by_contra hpos
    have hused := inUse_of_holders (holders_le hlaw hrun') (Nat.pos_of_ne_zero hpos)
    cases hdeleted.symm.trans hused
  · have hstart := Machine.run_concat_eq_some.mpr ⟨s, replies, r, h, hs, rfl⟩
    have hbad : GoingBad status c s₁ := by
      cases step_cases hs with
      | callRelease => exact Or.inl ⟨t, Finmap.lookup_insert _⟩
    refine (Machine.run_history (P := fun _ replies s => GoingBad status c s ∧ PoolReply.grabbed (some c) ∉ replies)
      ⟨hbad, nofun⟩ (fun {acts₁ replies₁ s a r s'} hrun ih hs => ?_) hrun).2
    have hle := holders_le hlaw (Machine.run_append_eq_some.mpr ⟨s₁, _, _, hstart, hrun, rfl⟩)
    obtain ⟨hbad', hr⟩ := ih.1.step hlaw hle hs
    refine ⟨hbad', ?_⟩
    rw [List.mem_append, not_or, List.mem_singleton]
    exact ⟨ih.2, fun e => hr e.symm⟩

/-- A thread takes a connection and releases it as bad, and the next `grab` gives another one. -/
def badReleased : List (PoolAction (Option Nat) Nat Nat) :=
  [.callGrab 0, .grabLock 0 (some 7), .grabCharset 0 false, .callRelease 0 7 true, .releaseLock 0 none, .callGrab 0,
    .grabLock 0 (some 8), .grabCharset 0 false]

theorem bad_connection_gone_badReleased :
    ∃ replies s, (machine (recordPool Nat) 20).run (new (recordPool Nat) []) badReleased = some (replies, s) ∧
      replies = [.running, .running, .grabbed (some 7), .running, .released, .running, .running, .grabbed (some 8)] ∧
        ∀ c, s.holders c ≤ 1 := by
  have hreplies : ((machine (recordPool Nat) 20).run (new (recordPool Nat) []) badReleased).map (fun r => r.1) = some
      [.running, .running, .grabbed (some 7), .running, .released, .running, .running, .grabbed (some 8)] := by decide +kernel
  obtain ⟨⟨replies, s⟩, hrun, rfl⟩ := Option.map_eq_some_iff.mp hreplies
  exact ⟨_, s, hrun, rfl, (bad_connection_gone (recordPool Nat) recordStatus recordPool_lawful [] 20 badReleased _ s hrun).1⟩

end PoolState

end FrontServer
