import FrontServer.InitServer

/-!
# What one report stands for

A report of the listening socket stands for all connections that completed since the last one, and the loop accepts one of them. A report
of a connection stands for all bytes that arrived, and the loop reads until there are no more. So bytes are never left behind without a
report to come, and connections are.
-/

namespace FrontServer

/-- How many connections an outcome takes out of the backlog. -/
def AcceptOutcome.taken : AcceptOutcome → Nat
  | .failed taken => taken.toNat
  | .accepted _ _ _ => 1

namespace EpollLoop

/-- The events that the loop has in front of it. -/
def pending (s : EpollLoop) : List Int :=
  match s.position with
  | .wait => []
  | .events fds => fds

/-- The loop is blocked in `epoll_wait` with no event to report, and a connection is in the backlog. -/
def Stranded (s : EpollLoop) : Prop := s.position = .wait ∧ s.ready = [] ∧ 0 < s.backlog

/-- While there are connections in the backlog, a report of the listening socket is to come, or in front of the loop. -/
def Covered (listenSock : Int) (s : EpollLoop) : Prop := 0 < s.backlog → listenSock ∈ s.ready ∨ listenSock ∈ s.pending

/-- The loop handles a report of the listening socket with no other to come, and not all connections of the backlog are taken. -/
def LeavesConnection (listenSock : Int) (s : EpollLoop) : EpollAction → Prop
  | .accept outcome => listenSock ∉ s.ready ∧ listenSock ∉ s.pending.tail ∧ outcome.taken < s.backlog
  | _ => False

instance (listenSock : Int) (s : EpollLoop) (a : EpollAction) : Decidable (LeavesConnection listenSock s a) :=
  match a with
  | .accept _ => inferInstanceAs (Decidable (_ ∧ _ ∧ _))
  | .connect => isFalse id
  | .arrive _ _ => isFalse id
  | .report _ => isFalse id
  | .interrupt => isFalse id
  | .read => isFalse id
  | .again => isFalse id

variable {listenSock : Int} {s s' : EpollLoop}

/-! ## What a step does -/

/-- A report leaves the connections that wait. -/
@[simp] theorem backlog_raise (s : EpollLoop) (fd : Int) : (s.raise fd).backlog = s.backlog := by
  unfold raise
  split
  · rfl
  · rfl

/-- It leaves the connections accepted. -/
@[simp] theorem conns_raise (s : EpollLoop) (fd : Int) : (s.raise fd).conns = s.conns := by
  unfold raise
  split
  · rfl
  · rfl

/-- It leaves what is there to be read. -/
@[simp] theorem pending_raise (s : EpollLoop) (fd : Int) : (s.raise fd).pending = s.pending := by
  unfold raise
  split
  · rfl
  · rfl

/-- What is reported is one descriptor more. -/
@[simp] theorem mem_ready_raise {s : EpollLoop} {fd fd' : Int} : fd' ∈ (s.raise fd).ready ↔ fd' ∈ s.ready ∨ fd' = fd := by
  unfold raise
  split
  · rename_i hmem
    exact ⟨Or.inl, fun h => h.elim id fun he => he ▸ hmem⟩
  · exact List.mem_append.trans (or_congr_right List.mem_singleton)

/-- What `accept` and the calls after it leave. -/
theorem accept_cases {outcome : AcceptOutcome} (h : s.accept listenSock outcome = some s') :
    outcome.taken ≤ s.backlog ∧ s'.backlog = s.backlog - outcome.taken ∧ s'.ready = s.ready ∧
      (s'.conns = s.conns ∨ ∃ connFd, connFd ≠ listenSock ∧ s'.conns = s.conns.insert connFd []) := by
  cases outcome with
  | failed taken =>
    cases taken with
    | false =>
      cases h
      exact ⟨Nat.zero_le _, rfl, rfl, Or.inl rfl⟩
    | true =>
      rw [accept] at h
      split at h
      · rename_i hpos
        cases h
        exact ⟨hpos, rfl, rfl, Or.inl rfl⟩
      · cases h
  | accepted connFd nonblocking added =>
    rw [accept] at h
    split at h
    · rename_i hconn
      refine ⟨hconn.1, ?_⟩
      cases nonblocking with
      | false =>
        cases h
        exact ⟨rfl, rfl, Or.inl rfl⟩
      | true =>
        cases added with
        | false =>
          cases h
          exact ⟨rfl, rfl, Or.inl rfl⟩
        | true =>
          cases h
          exact ⟨rfl, rfl, Or.inr ⟨connFd, hconn.2.1, rfl⟩⟩
    · cases h

/-- The steps, each with where it is taken and what it leaves. -/
inductive Moves (listenSock : Int) (s : EpollLoop) : EpollAction → EpollLoop → Prop where
  | connect : Moves listenSock s .connect (raise { s with backlog := s.backlog + 1 } listenSock)
  | arrive (fd : Int) (data unread : Bytes) (hfd : s.conns.lookup fd = some unread) :
      Moves listenSock s (.arrive fd data) (raise { s with conns := s.conns.insert fd (unread ++ data) } fd)
  | report (n : Nat) (hwait : s.position = .wait) :
      Moves listenSock s (.report n) { s with ready := s.ready.drop n, position := .events (s.ready.take n) }
  | interrupt : Moves listenSock s .interrupt s
  | accept (outcome : AcceptOutcome) (fds : List Int) (s₁ : EpollLoop) (hpending : s.pending = listenSock :: fds)
      (haccept : s.accept listenSock outcome = some s₁) : Moves listenSock s (.accept outcome) { s₁ with position := .events fds }
  | read (fd : Int) (fds : List Int) (hpending : s.pending = fd :: fds) (hne : fd ≠ listenSock) :
      Moves listenSock s .read { s.drain fd with position := .events fds }
  | again (hpending : s.pending = []) : Moves listenSock s .again { s with position := .wait }

/-- A step is one of these. -/
theorem step_moves {a : EpollAction} {r : Unit} (hs : (machine listenSock).step s a = some (r, s')) : Moves listenSock s a s' := by
  cases a with
  | connect =>
    cases hs
    exact .connect
  | arrive fd data =>
    simp only [machine, step] at hs
    split at hs
    · rename_i unread hfd
      cases hs
      exact .arrive fd data unread hfd
    · cases hs
  | report n =>
    simp only [machine, step] at hs
    split at hs
    · rename_i hwait
      split at hs
      · cases hs
        exact .report n hwait
      · cases hs
    · cases hs
  | interrupt =>
    simp only [machine, step] at hs
    split at hs
    · cases hs
      exact .interrupt
    · cases hs
  | accept outcome =>
    simp only [machine, step] at hs
    split at hs
    · rename_i fd fds hposition
      split at hs
      · rename_i hlisten
        subst hlisten
        obtain ⟨s₁, haccept, he⟩ := Option.map_eq_some_iff.mp hs
        cases he
        exact .accept outcome fds s₁ (by rw [pending, hposition]) haccept
      · cases hs
    · cases hs
  | read =>
    simp only [machine, step] at hs
    split at hs
    · rename_i fd fds hposition
      split at hs
      · cases hs
      · rename_i hne
        cases hs
        exact .read fd fds (by rw [pending, hposition]) hne
    · cases hs
  | again =>
    simp only [machine, step] at hs
    split at hs
    · rename_i hposition
      cases hs
      exact .again (by rw [pending, hposition])
    · cases hs

/-- Reading a connection leaves those that wait. -/
@[simp] theorem backlog_drain (s : EpollLoop) (fd : Int) : (s.drain fd).backlog = s.backlog := by
  unfold drain
  split
  · rfl
  · rfl

/-- It leaves what is reported. -/
@[simp] theorem ready_drain (s : EpollLoop) (fd : Int) : (s.drain fd).ready = s.ready := by
  unfold drain
  split
  · rfl
  · rfl

/-- A report that is to come, or in front of the loop, stays so until the loop handles it. -/
theorem told_of_moves {a : EpollAction} (hmoves : Moves listenSock s a s') {fd : Int} (h : fd ∈ s.ready ∨ fd ∈ s.pending)
    (haccept : ∀ outcome, a = .accept outcome → fd ≠ listenSock) (hread : a = .read → s.pending.head? ≠ some fd) :
    fd ∈ s'.ready ∨ fd ∈ s'.pending := by
  cases hmoves with
  | connect =>
    rw [mem_ready_raise, pending_raise]
    exact h.imp_left Or.inl
  | arrive fd' data unread hfd =>
    rw [mem_ready_raise, pending_raise]
    exact h.imp_left Or.inl
  | report n hwait =>
    rcases h with hmem | hmem
    · rw [← List.take_append_drop n s.ready] at hmem
      exact (List.mem_append.mp hmem).symm
    · rw [pending, hwait] at hmem
      cases hmem
  | interrupt => exact h
  | accept outcome fds s₁ hpending hs₁ =>
    obtain ⟨-, -, hready, -⟩ := accept_cases hs₁
    show fd ∈ s₁.ready ∨ fd ∈ fds
    rw [hready]
    refine h.imp_right fun hmem => ?_
    rw [hpending] at hmem
    exact (List.mem_cons.mp hmem).resolve_left (haccept outcome rfl)
  | read fd' fds hpending hne =>
    have hfd : fd ≠ fd' := by
      rintro rfl
      exact hread rfl (congrArg List.head? hpending)
    show fd ∈ (s.drain fd').ready ∨ fd ∈ fds
    rw [ready_drain]
    refine h.imp_right fun hmem => ?_
    rw [hpending] at hmem
    exact (List.mem_cons.mp hmem).resolve_left hfd
  | again hpending =>
    rw [hpending] at h
    exact h

/-! ## Connections -/

/-- A loop that is covered is not stranded. -/
theorem Covered.not_stranded (h : s.Covered listenSock) : ¬s.Stranded := by
  rintro ⟨hwait, hready, hpos⟩
  rcases h hpos with hmem | hmem
  · rw [hready] at hmem
    cases hmem
  · rw [pending, hwait] at hmem
    cases hmem

/-- A covered loop stays covered by a step exactly when it leaves no connection. -/
theorem covered_of_step {a : EpollAction} {r : Unit} (hcov : s.Covered listenSock)
    (hs : (machine listenSock).step s a = some (r, s')) : s'.Covered listenSock ↔ ¬LeavesConnection listenSock s a := by
  have hmoves := step_moves hs
  have hkept : (∀ outcome, a ≠ .accept outcome) → (a = .read → s.pending.head? ≠ some listenSock) → s'.backlog = s.backlog →
      s'.Covered listenSock := by
    intro haccept hread hbacklog hpos
    exact told_of_moves hmoves (hcov (hbacklog ▸ hpos)) (fun outcome he => absurd he (haccept outcome)) hread
  cases hmoves with
  | connect => exact iff_of_true (fun _ => Or.inl (mem_ready_raise.mpr (Or.inr rfl))) id
  | arrive fd data unread hfd => exact iff_of_true (hkept nofun nofun (backlog_raise _ fd)) id
  | report n hwait => exact iff_of_true (hkept nofun nofun rfl) id
  | interrupt => exact iff_of_true hcov id
  | accept outcome fds s₁ hpending haccept =>
    obtain ⟨hle, hbacklog, hready, -⟩ := accept_cases haccept
    have htail : s.pending.tail = fds := by rw [hpending, List.tail_cons]
    have hiff : Covered listenSock { s₁ with position := .events fds } ↔
        (0 < s.backlog - outcome.taken → listenSock ∈ s.ready ∨ listenSock ∈ fds) := by
      rw [← hbacklog, ← hready]
      exact Iff.rfl
    rw [hiff, LeavesConnection, htail, Nat.sub_pos_iff_lt]
    constructor
    · rintro hcov' ⟨hnotReady, hnotPending, hlt⟩
      exact (hcov' hlt).elim hnotReady hnotPending
    · intro hleaves hlt
      by_contra hnone
      exact hleaves ⟨fun hmem => hnone (Or.inl hmem), fun hmem => hnone (Or.inr hmem), hlt⟩
  | read fd fds hpending hne =>
    refine iff_of_true (hkept nofun (fun _ => ?_) (backlog_drain s fd)) id
    rw [hpending, List.head?_cons]
    exact fun he => hne (Option.some.inj he)
  | again hpending => exact iff_of_true (hkept nofun nofun rfl) id

/-- How much the loop has to do before it blocks, if nothing more happens. -/
def work (s : EpollLoop) : Nat :=
  3 * s.ready.length +
    match s.position with
    | .wait => 0
    | .events fds => fds.length + 1

/-- A loop that is not covered blocks with a connection in the backlog, if nothing more happens. -/
theorem reaches_stranded (h : ¬s.Covered listenSock) : ∃ t, (machine listenSock).Reaches s t ∧ t.Stranded := by
  have hprogress : ∀ {s : EpollLoop}, ¬s.Covered listenSock → ¬s.Stranded →
      ∃ a r s', (machine listenSock).step s a = some (r, s') ∧ ¬s'.Covered listenSock ∧ s'.work < s.work := by
    intro s hcov hstranded
    obtain ⟨hpos, hnone⟩ := Classical.not_imp.mp hcov
    obtain ⟨hready, hpending⟩ := not_or.mp hnone
    rcases hposition : s.position with _ | fds
    · rcases hlist : s.ready with _ | ⟨fd, rest⟩
      · exact absurd ⟨hposition, hlist, hpos⟩ hstranded
      · rw [hlist] at hready
        refine ⟨.report 1, (), { s with ready := rest, position := .events [fd] }, ?_, ?_, ?_⟩
        · simp [machine, step, hposition, hlist, maxEvents]
        · exact fun hc => (hc hpos).elim (fun hm => hready (List.mem_cons_of_mem _ hm))
            fun hm => hready (List.mem_singleton.mp hm ▸ List.mem_cons_self)
        · simp only [work, hposition, hlist, List.length_cons, List.length_nil]
          omega
    · rcases fds with _ | ⟨fd, fds⟩
      · refine ⟨.again, (), { s with position := .wait }, ?_, ?_, ?_⟩
        · simp [machine, step, hposition]
        · exact fun hc => (hc hpos).elim hready nofun
        · simp only [work, hposition, List.length_nil]
          omega
      · rw [pending, hposition] at hpending
        have hne : fd ≠ listenSock := fun he => hpending (he ▸ List.mem_cons_self)
        refine ⟨.read, (), { s.drain fd with position := .events fds }, ?_, ?_, ?_⟩
        · simp [machine, step, hposition, hne]
        · intro hc
          have hpos' : 0 < (s.drain fd).backlog := by rwa [backlog_drain]
          refine (hc hpos').elim (fun hm => hready ?_) fun hm => hpending (List.mem_cons_of_mem _ hm)
          rwa [← ready_drain s fd]
        · simp only [work, hposition, ready_drain, List.length_cons]
          omega
  obtain ⟨t, hreach, -, hdone⟩ := Machine.reaches_of_measure work hprogress h
  exact ⟨t, hreach, hdone⟩

/-- In a run no step of which leaves a connection no state reached is stranded. A step from there that does leads to a state from which
a stranded one is reached. -/
theorem no_stranded_connection (listenSock : Int) (acts : List EpollAction) (replies : List Unit) (s : EpollLoop)
    (h : (machine listenSock).run new acts = some (replies, s))
    (htakes : (machine listenSock).Meets (fun s a => ¬LeavesConnection listenSock s a) new acts) :
    ¬s.Stranded ∧
      ∀ a r s', (machine listenSock).step s a = some (r, s') → LeavesConnection listenSock s a →
        ∃ t, (machine listenSock).Reaches s' t ∧ t.Stranded := by
  have hcov : s.Covered listenSock :=
    htakes.run_invariant (P := Covered listenSock) (fun hcov htake hs => (covered_of_step hcov hs).mpr htake)
      (fun hpos => absurd hpos (Nat.lt_irrefl 0)) h
  refine ⟨hcov.not_stranded, fun a r s' hs hleaves => reaches_stranded fun hcov' => ?_⟩
  exact (covered_of_step hcov hs).mp hcov' hleaves

/-- Two connections complete before the first report of the listening socket, and one of them is accepted. -/
def twoConnections : List EpollAction := [.connect, .connect, .report 1, .accept (.accepted 5 true true), .again]

/-- The other is stranded. -/
theorem second_connection_stranded :
    ¬∀ (listenSock : Int) (acts : List EpollAction) (replies : List Unit) (s : EpollLoop),
      (machine listenSock).run new acts = some (replies, s) → ¬s.Stranded := by
  intro h
  have hlast : ((machine 3).run new twoConnections).map (fun r => (r.2.position, r.2.ready, r.2.backlog)) = some (.wait, [], 1) := by
    decide +kernel
  obtain ⟨⟨replies, s⟩, hrun, hs⟩ := Option.map_eq_some_iff.mp hlast
  simp only [Prod.mk.injEq] at hs
  obtain ⟨hwait, hready, hbacklog⟩ := hs
  exact h 3 twoConnections replies s hrun ⟨hwait, hready, by omega⟩

/-- A second connection completes after the report of the first and before the loop handles it. -/
def oneAfterTheOther : List EpollAction :=
  [.connect, .report 1, .connect, .accept (.accepted 5 true true), .again, .report 1, .accept (.accepted 6 true true), .again]

theorem no_stranded_connection_oneAfterTheOther :
    ∃ replies s, (machine 3).run new oneAfterTheOther = some (replies, s) ∧ ¬s.Stranded := by
  have hsome : ((machine 3).run new oneAfterTheOther).isSome := by decide +kernel
  obtain ⟨⟨replies, s⟩, hrun⟩ := Option.isSome_iff_exists.mp hsome
  exact ⟨replies, s, hrun, (no_stranded_connection 3 oneAfterTheOther replies s hrun (by decide +kernel)).1⟩

/-! ## Bytes -/

/-- While bytes of a connection are unread, a report of it is to come, or in front of the loop. -/
structure Reported (listenSock : Int) (s : EpollLoop) : Prop where
  listen : s.conns.lookup listenSock = none
  unread : ∀ fd data, s.conns.lookup fd = some data → data ≠ [] → fd ∈ s.ready ∨ fd ∈ s.pending

/-- A connection that has unread bytes is not the listening socket. -/
theorem Reported.ne (h : s.Reported listenSock) {fd : Int} {data : Bytes} (hfd : s.conns.lookup fd = some data) : fd ≠ listenSock := by
  rintro rfl
  cases h.listen.symm.trans hfd

/-- A step keeps what is there to be read reported. -/
theorem reported_of_step {a : EpollAction} {r : Unit} (h : s.Reported listenSock)
    (hs : (machine listenSock).step s a = some (r, s')) : s'.Reported listenSock := by
  have hmoves := step_moves hs
  have hkept : ∀ fd data, (a = .read → s.pending.head? ≠ some fd) → s.conns.lookup fd = some data → data ≠ [] →
      fd ∈ s'.ready ∨ fd ∈ s'.pending := by
    intro fd data hread hfd hne
    exact told_of_moves hmoves (h.unread fd data hfd hne) (fun _ _ => h.ne hfd) hread
  cases hmoves with
  | connect =>
    refine ⟨by rw [conns_raise]; exact h.listen, fun fd data hfd => ?_⟩
    rw [conns_raise] at hfd
    exact hkept fd data nofun hfd
  | arrive fd data unread hfd =>
    refine ⟨?_, fun fd' data' hfd' hne' => ?_⟩
    · rw [conns_raise, Finmap.lookup_insert_of_ne _ (h.ne hfd).symm]
      exact h.listen
    · by_cases he : fd' = fd
      · exact Or.inl (mem_ready_raise.mpr (Or.inr he))
      · rw [conns_raise, Finmap.lookup_insert_of_ne _ he] at hfd'
        exact hkept fd' data' nofun hfd' hne'
  | report n hwait => exact ⟨h.listen, fun fd data => hkept fd data nofun⟩
  | interrupt => exact h
  | accept outcome fds s₁ hpending haccept =>
    obtain ⟨-, -, -, hconns⟩ := accept_cases haccept
    have hlisten : s₁.conns.lookup listenSock = none := by
      rcases hconns with hconns | ⟨connFd, hconnFd, hconns⟩
      · rw [hconns]
        exact h.listen
      · rw [hconns, Finmap.lookup_insert_of_ne _ hconnFd.symm]
        exact h.listen
    refine ⟨hlisten, fun fd data (hfd : s₁.conns.lookup fd = some data) hne => ?_⟩
    rcases hconns with hconns | ⟨connFd, -, hconns⟩
    · rw [hconns] at hfd
      exact hkept fd data nofun hfd hne
    · rw [hconns] at hfd
      by_cases he : fd = connFd
      · rw [he, Finmap.lookup_insert] at hfd
        cases hfd
        exact absurd rfl hne
      · rw [Finmap.lookup_insert_of_ne _ he] at hfd
        exact hkept fd data nofun hfd hne
  | read fd fds hpending hne =>
    have hdrained : ∀ fd', fd' ≠ fd → (s.drain fd).conns.lookup fd' = s.conns.lookup fd' := by
      intro fd' he
      unfold drain
      split
      · exact Finmap.lookup_insert_of_ne _ he
      · rfl
    refine ⟨(hdrained _ hne.symm).trans h.listen, fun fd' data (hfd' : (s.drain fd).conns.lookup fd' = some data) hne' => ?_⟩
    by_cases he : fd' = fd
    · rw [he, drain] at hfd'
      split at hfd'
      · rw [Finmap.lookup_insert] at hfd'
        cases hfd'
        exact absurd rfl hne'
      · rename_i hnone
        cases hnone.symm.trans hfd'
    · rw [hdrained fd' he] at hfd'
      refine hkept fd' data (fun _ => ?_) hfd' hne'
      rw [hpending, List.head?_cons]
      exact fun hfd => he (Option.some.inj hfd).symm
  | again hpending => exact ⟨h.listen, fun fd data => hkept fd data nofun⟩

/-- In every run, the loop is never blocked with bytes of a connection unread and no event to report. -/
theorem no_stranded_data {acts : List EpollAction} {replies : List Unit}
    (h : (machine listenSock).run new acts = some (replies, s)) (hwait : s.position = .wait) (hready : s.ready = []) {fd : Int}
    {data : Bytes} (hfd : s.conns.lookup fd = some data) : data = [] := by
  have hreported : s.Reported listenSock :=
    Machine.run_invariant reported_of_step ⟨Finmap.lookup_empty _, fun fd data hfd => absurd hfd (by simp [new])⟩ h
  by_contra hne
  rcases hreported.unread fd data hfd hne with hmem | hmem
  · rw [hready] at hmem
    cases hmem
  · rw [pending, hwait] at hmem
    cases hmem

end EpollLoop

end FrontServer
