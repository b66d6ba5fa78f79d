import AgoraEtl.Runner.Leased

/-!
# Runs of one pipeline in a fleet

Every worker of a fleet drives its own loop for the pipeline, and the loops share the lease of a
coordinator that grants it only while nobody holds it.  A lease can expire while its holder does not
know, so that another worker gets it.

A run is a task of its own, which ends when it ends, not when the loop goes on: a loop whose scheduler
task is cancelled can leave its run behind and release the lease.  Where the steps of the tasks are
harmless, a run has ended before its loop goes on (`leaseSafe_of_harmless`), so that at most one worker
has a run of the pipeline, unless the lease of one of them has expired since it was granted: the runs
exclude each other because each loop keeps to the protocol of the lease.
-/

namespace AgoraEtl.Leased

open Effect Program

variable {W : Type}

/-- One entry of the history of a fleet: the loop of a worker goes on, one of the three tasks of its
`_run_with_abort` does, or the lease expires. -/
inductive Entry (W : Type) : Type where
  | did (worker : W) (e : Event Op Op.Ret Mark)
  | ran (worker : W) (label : Runner.Label Unit)
  | expired

variable [DecidableEq W]

namespace Entry

/-- The event of the loop of the worker, if it is one. -/
def ofLoop (worker : W) : Entry W → Option (Event Op Op.Ret Mark)
  | did worker' e => if worker' = worker then some e else none
  | _ => none

/-- The label of the tasks of the worker, if it is one. -/
def ofTasks (worker : W) : Entry W → Option (Runner.Label Unit)
  | ran worker' label => if worker' = worker then some label else none
  | _ => none

/-- Who holds the lease after the entry; a worker whose `release_lease` has raised is done with it. -/
def holder (held : Option W) : Entry W → Option W
  | did worker e =>
    match actionOf e with
    | .asked true => some worker
    | .released | .unreleased => if held = some worker then none else held
    | _ => held
  | ran _ _ => held
  | expired => none

/-- The labels of the tasks of the run that the worker has started last. -/
def tasks (worker : W) (labels : Option (List (Runner.Label Unit))) :
    Entry W → Option (List (Runner.Label Unit))
  | did worker' e => if worker' = worker ∧ actionOf e = .entered then some [] else labels
  | ran worker' label => if worker' = worker then labels.map (· ++ [label]) else labels
  | expired => labels

end Entry

/-- The trace of the loop of a worker. -/
def loopOf (worker : W) (history : List (Entry W)) : LoopTrace :=
  history.filterMap (Entry.ofLoop worker)

/-- Who holds the lease for the coordinator. -/
def holderOf (history : List (Entry W)) : Option W := history.foldl Entry.holder none

/-- What the tasks of the last run of a worker have done, if it has started one. -/
def tasksOf (worker : W) (history : List (Entry W)) : Option (List (Runner.Label Unit)) :=
  history.foldl (Entry.tasks worker) none

/-- How many runs the worker has started. -/
def started (worker : W) (history : List (Entry W)) : ℕ :=
  (loopOf worker history).countP fun e => actionOf e = .entered

/-- How many runs of the worker have ended. -/
def ended (worker : W) (history : List (Entry W)) : ℕ :=
  (history.filterMap (Entry.ofTasks worker)).countP Runner.Label.isRunEnd

/-- A run of the worker is executing. -/
def InRun (worker : W) (history : List (Entry W)) : Prop :=
  ended worker history < started worker history

instance (worker : W) (history : List (Entry W)) : Decidable (InRun worker history) :=
  inferInstanceAs (Decidable (_ < _))

/-- The lease has expired, and has not been granted to the worker since. -/
def ExpiredFor (worker : W) (history : List (Entry W)) : Prop :=
  ∃ before after, history = before ++ .expired :: after ∧ grants (loopOf worker after) = 0

/-- A history of the fleet. -/
structure Fleet (history : List (Entry W)) : Prop where
  /-- Each worker has come some way in its loop. -/
  loops : ∀ worker, ∃ (p : LeasedPipeline) (fuel : ℕ) (s : ScheduledPipelineState)
    (h : Handler Op Op.Ret Mark), loopOf worker history <+: ((p.run fuel).run h ⟨s, []⟩).2.trace
  /-- The tasks of a run go on in harmless steps. -/
  tasks : ∀ before worker label after, history = before ++ .ran worker label :: after →
    ∃ labels s, tasksOf worker before = some labels ∧
      Runs Runner.HarmlessStep Runner.Tasks.start (labels ++ [label]) s
  /-- `_run_with_abort` is left as the scheduler task leaves it. -/
  left : ∀ before worker fence result after,
    history = before ++ .did worker (.called (.runWithAbort fence) result) :: after →
    ∃ labels s, tasksOf worker before = some labels ∧
      Runs Runner.HarmlessStep Runner.Tasks.start labels s ∧ s.scheduler = .left result
  /-- The coordinator grants the lease only while nobody holds it. -/
  exclusive : ∀ before worker number after,
    history = before ++ .did worker (.called (.tryAcquireLease number) (.ok true)) :: after →
    holderOf before = none

/-- The events of a loop in two parts of a history follow one another. -/
@[simp] theorem loopOf_append (worker : W) (history history' : List (Entry W)) :
    loopOf worker (history ++ history') = loopOf worker history ++ loopOf worker history' :=
  List.filterMap_append

/-- The event of a worker is one of its loop. -/
theorem loopOf_self (worker : W) (e : Event Op Op.Ret Mark) : loopOf worker [.did worker e] = [e] := by
  simp [loopOf, Entry.ofLoop]

/-- It is none of another worker's loop. -/
theorem loopOf_other {worker worker' : W} (h : worker' ≠ worker) (e : Event Op Op.Ret Mark) :
    loopOf worker [.did worker' e] = [] := by
  simp [loopOf, Entry.ofLoop, h]

/-- One more entry changes the holder. -/
theorem holderOf_snoc (history : List (Entry W)) (entry : Entry W) :
    holderOf (history ++ [entry]) = entry.holder (holderOf history) := by
  rw [holderOf, List.foldl_append]
  rfl

/-- Only the start of a run enters it. -/
theorem eq_runStarts_of_entered {e : Event Op Op.Ret Mark} (h : actionOf e = .entered) :
    e = .mark .runStarts := by
  rcases e with m | ⟨o, r⟩
  · cases m
    rfl
  · cases o with
    | tryAcquireLease number => rcases r with _ | _ <;> exact absurd h (by simp [actionOf])
    | currentLease => rcases r with _ | _ | _ <;> exact absurd h (by simp [actionOf])
    | build => rcases r with _ | _ <;> exact absurd h (by simp [actionOf])
    | releaseLease => rcases r with _ | _ <;> exact absurd h (by simp [actionOf])
    | onRunComplete record => exact absurd h (ScheduledPipeline.callbackAction_ne (by simp) (by simp))
    | observer id record => exact absurd h (ScheduledPipeline.callbackAction_ne (by simp) (by simp))
    | _ => exact absurd h (by simp [actionOf])

/-- Only `_run_with_abort` runs. -/
theorem eq_runWithAbort_of_ran {e : Event Op Op.Ret Mark} {fence : Option RunFence}
    (h : actionOf e = .ran fence) : ∃ fence result, e = .called (.runWithAbort fence) result := by
  rcases e with m | ⟨o, r⟩
  · cases m
    exact absurd h (by simp [actionOf])
  · cases o with
    | runWithAbort fence' => exact ⟨fence', r, rfl⟩
    | tryAcquireLease number => rcases r with _ | _ <;> exact absurd h (by simp [actionOf])
    | currentLease => rcases r with _ | _ | _ <;> exact absurd h (by simp [actionOf])
    | build => rcases r with _ | _ <;> exact absurd h (by simp [actionOf])
    | releaseLease => rcases r with _ | _ <;> exact absurd h (by simp [actionOf])
    | onRunComplete record => exact absurd h (ScheduledPipeline.callbackAction_ne (by simp) (by simp))
    | observer id record => exact absurd h (ScheduledPipeline.callbackAction_ne (by simp) (by simp))
    | _ => exact absurd h (by simp [actionOf])

variable {history : List (Entry W)} {worker worker' : W} {entry : Entry W}
  {e : Event Op Op.Ret Mark}

/-- An expiry is remembered until the worker is granted the lease again. -/
theorem ExpiredFor.snoc (h : ExpiredFor worker history) (hentry : grants (loopOf worker [entry]) = 0) :
    ExpiredFor worker (history ++ [entry]) := by
  obtain ⟨before, after, rfl, hafter⟩ := h
  refine ⟨before, after ++ [entry], by simp, ?_⟩
  rw [loopOf_append, grants, List.countP_append]
  rw [grants] at hafter hentry
  omega

/-- The loops of a fleet keep to the protocol. -/
theorem Fleet.accepts (h : Fleet history) (worker : W) :
    ∃ p : LeasedPipeline, p.leaseProtocol.Accepts (loopOf worker history) := by
  obtain ⟨p, fuel, s, handler, htrunc⟩ := h.loops worker
  have hfree : p.Stands .free ⟨s, []⟩ := rfl
  have hsafe : (p.run fuel).Safe p.leaseProtocol.contract (fun _ _ w => p.Left w)
      (fun _ _ w => p.Left w) ⟨s, []⟩ ⟨s, []⟩ := LeasedPipeline.safe_run fuel hfree
  exact ⟨p, (Protocol.accepts_run handler rfl hsafe).1.truncate htrunc⟩

/-- The beginning of a fleet's history is one, too. -/
theorem Fleet.of_snoc (h : Fleet (history ++ [entry])) : Fleet history where
  loops worker := by
    obtain ⟨p, fuel, s, handler, htrunc⟩ := h.loops worker
    rw [loopOf_append] at htrunc
    exact ⟨p, fuel, s, handler, (List.prefix_append _ _).trans htrunc⟩
  tasks before worker label after hhistory :=
    h.tasks before worker label (after ++ [entry]) (by rw [hhistory]; simp)
  left before worker fence result after hhistory :=
    h.left before worker fence result (after ++ [entry]) (by rw [hhistory]; simp)
  exclusive before worker number after hhistory :=
    h.exclusive before worker number (after ++ [entry]) (by rw [hhistory]; simp)

/-- Only a grant and a call of `release_lease` change who holds the lease. -/
theorem holder_did (held : Option W) (worker : W) (e : Event Op Op.Ret Mark) :
    (actionOf e = .asked true ∧ Entry.holder held (.did worker e) = some worker) ∨
    ((actionOf e = .released ∨ actionOf e = .unreleased) ∧
      Entry.holder held (.did worker e) = if held = some worker then none else held) ∨
    (actionOf e ≠ .asked true ∧ (actionOf e ≠ .released ∧ actionOf e ≠ .unreleased) ∧
      Entry.holder held (.did worker e) = held) := by
  rcases h : actionOf e with (_ | _) | _ | _ | _ | _ | _ | _ | _ | _ <;> simp [Entry.holder, h]

/-- The worker has a lease to release. -/
def Outstanding (worker : W) (history : List (Entry W)) : Prop :=
  grants (loopOf worker history) ≠ releases (loopOf worker history) + unreleased (loopOf worker history)

/-- After it has called `release_lease` a worker has no grant outstanding. -/
theorem Fleet.not_outstanding_of_released (h : Fleet (history ++ [.did worker e]))
    (he : actionOf e = .released ∨ actionOf e = .unreleased) :
    ¬ Outstanding worker (history ++ [.did worker e]) := by
  obtain ⟨p, haccepts⟩ := h.accepts worker
  rw [loopOf_append, loopOf_self] at haccepts
  obtain ⟨phase, phase', -, hnext, hphase'⟩ := haccepts.allowed
  have hmove : p.Move phase (actionOf e) phase' := ScheduledPipeline.move_of_nextPhase hnext
  rw [Outstanding, not_not, loopOf_append, loopOf_self, ScheduledPipeline.grants_eq hphase']
  rcases he with he | he <;> rw [he] at hmove <;> cases hmove <;> rfl

/-- A worker whose grant is outstanding holds the lease, unless the lease has expired for it. -/
theorem Fleet.holds (h : Fleet history) (worker : W) (houtstanding : Outstanding worker history) :
    ExpiredFor worker history ∨ holderOf history = some worker := by
  induction history using List.reverseRecOn with
  | nil => exact absurd rfl houtstanding
  | append_singleton history entry ih =>
    have ih := ih h.of_snoc
    rw [holderOf_snoc]
    cases entry with
    | expired => exact .inl ⟨history, [], rfl, rfl⟩
    | ran worker' label =>
      rw [Outstanding, loopOf_append, show loopOf worker [.ran worker' label] = [] from rfl,
        List.append_nil] at houtstanding
      exact (ih houtstanding).imp (fun hexpired => hexpired.snoc rfl) id
    | did worker' e =>
      by_cases hworker : worker' = worker
      · subst hworker
        rcases holder_did (holderOf history) worker' e with ⟨-, hholder⟩ | ⟨he, -⟩ | ⟨hask, hrel, hholder⟩
        · exact .inr hholder
        · exact absurd houtstanding (h.not_outstanding_of_released he)
        · rw [hholder]
          refine (ih ?_).imp (fun hexpired => hexpired.snoc ?_) id
          · rw [Outstanding, loopOf_append, loopOf_self] at houtstanding
            simpa [Outstanding, grants, releases, unreleased, hask, hrel] using houtstanding
          · rw [loopOf_self]
            simp [grants, hask]
      · rw [Outstanding, loopOf_append, loopOf_other hworker, List.append_nil] at houtstanding
        rcases ih houtstanding with hexpired | hheld
        · refine .inl (hexpired.snoc ?_)
          rw [loopOf_other hworker]
          rfl
        · refine .inr ?_
          rcases holder_did (holderOf history) worker' e with ⟨he, -⟩ | ⟨-, hholder⟩ | ⟨-, -, hholder⟩
          · -- the coordinator grants no lease that is held
            obtain ⟨number, rfl⟩ := ScheduledPipeline.eq_tryAcquireLease_of_granted he
            have hnone := h.exclusive history worker' number [] rfl
            exact absurd (hheld.symm.trans hnone) (by simp)
          · rw [hholder, hheld, if_neg (by simpa using Ne.symm hworker)]
          · rw [hholder, hheld]

/-! ### The run of a worker -/

/-- One more entry may be a step of the worker's tasks. -/
theorem tasksOf_snoc (history : List (Entry W)) (entry : Entry W) :
    tasksOf worker (history ++ [entry]) = entry.tasks worker (tasksOf worker history) := by
  rw [tasksOf, List.foldl_append]
  rfl

/-- One more entry may start a run. -/
theorem started_snoc (history : List (Entry W)) (entry : Entry W) :
    started worker (history ++ [entry]) = started worker history + started worker [entry] := by
  rw [started, loopOf_append, List.countP_append]
  rfl

/-- One more entry may end one. -/
theorem ended_snoc (history : List (Entry W)) (entry : Entry W) :
    ended worker (history ++ [entry]) = ended worker history + ended worker [entry] := by
  rw [ended, List.filterMap_append, List.countP_append]
  rfl

/-- While a run is started, nothing comes next in the loop but the answer of `_run_with_abort`. -/
theorem Fleet.answered_next (h : Fleet (history ++ [.did worker e]))
    (hlast : (loopOf worker history).getLast? = some (.mark .runStarts)) :
    ∃ fence result, e = .called (.runWithAbort fence) result := by
  obtain ⟨p, haccepts⟩ := h.accepts worker
  obtain ⟨front, hfront⟩ := List.getLast?_eq_some_iff.mp hlast
  rw [loopOf_append, loopOf_self, hfront, List.append_assoc] at haccepts
  obtain ⟨phase, phase', -, hnext, hphase'⟩ := haccepts.allowed
  have hentered : p.Move phase .entered phase' := ScheduledPipeline.move_of_nextPhase hnext
  rw [show front ++ ([.mark .runStarts] ++ [e]) = (front ++ [.mark .runStarts]) ++ [e] from
    (List.append_assoc _ _ _).symm] at haccepts
  obtain ⟨running, next, hrunning, hnext', -⟩ := haccepts.allowed
  obtain rfl := Option.some.inj (hphase'.symm.trans hrunning)
  have hmove : p.Move phase' (actionOf e) next := ScheduledPipeline.move_of_nextPhase hnext'
  cases hentered
  generalize haction : actionOf e = action at hmove
  cases hmove with
  | ran => exact eq_runWithAbort_of_ran haction
  | released held => exact held.elim
  | unreleased held => exact held.elim
  | left held => exact held.elim
  | other resting => exact absurd resting (by simp [Phase.Held])

/-- How the runs of a worker stand: it has started none; the last one is executing, and its loop awaits
it; or all have ended. -/
inductive RunsStand (worker : W) (history : List (Entry W)) : Prop where
  | none (tasks : tasksOf worker history = none) (count : started worker history = ended worker history)
  | executing (labels : List (Runner.Label Unit)) (tasks : tasksOf worker history = some labels)
      (going : labels.countP Runner.Label.isRunEnd = 0)
      (count : started worker history = ended worker history + 1)
      (awaited : (loopOf worker history).getLast? = some (.mark .runStarts))
  | finished (labels : List (Runner.Label Unit)) (tasks : tasksOf worker history = some labels)
      (gone : labels.countP Runner.Label.isRunEnd = 1)
      (count : started worker history = ended worker history)

/-- An entry that is nothing to the runs of a worker leaves them as they are. -/
theorem RunsStand.snoc (h : RunsStand worker history)
    (htasks : entry.tasks worker (tasksOf worker history) = tasksOf worker history)
    (hstarted : started worker [entry] = 0) (hended : ended worker [entry] = 0)
    (hawaited : (loopOf worker history).getLast? = some (.mark .runStarts) →
      loopOf worker [entry] = []) : RunsStand worker (history ++ [entry]) := by
  have hcount : started worker (history ++ [entry]) = started worker history ∧
      ended worker (history ++ [entry]) = ended worker history := by
    rw [started_snoc, ended_snoc, hstarted, hended]
    exact ⟨rfl, rfl⟩
  rw [← tasksOf_snoc] at htasks
  cases h with
  | none tasks count => exact .none (htasks.trans tasks) (by rw [hcount.1, hcount.2, count])
  | executing labels tasks going count awaited =>
    refine .executing labels (htasks.trans tasks) going (by rw [hcount.1, hcount.2, count]) ?_
    rw [loopOf_append, hawaited awaited, List.append_nil]
    exact awaited
  | finished labels tasks gone count =>
    exact .finished labels (htasks.trans tasks) gone (by rw [hcount.1, hcount.2, count])

/-- A step of the tasks of a worker may end its run. -/
theorem RunsStand.ran (h : RunsStand worker history) {label : Runner.Label Unit}
    (hfleet : Fleet (history ++ [.ran worker label])) :
    RunsStand worker (history ++ [.ran worker label]) := by
  obtain ⟨labels, s, hlabels, hruns⟩ := hfleet.tasks history worker label [] rfl
  have hends := Runner.countP_isRunEnd (hruns.mono fun _ _ _ hstep => hstep.1)
  have hle : (labels ++ [label]).countP Runner.Label.isRunEnd ≤ 1 := by
    rw [hends]
    exact Bool.toNat_le _
  rw [List.countP_append, List.countP_singleton] at hle
  have htasks : tasksOf worker (history ++ [.ran worker label]) = some (labels ++ [label]) := by
    rw [tasksOf_snoc, Entry.tasks, if_pos rfl, hlabels]
    rfl
  have hstarted : started worker (history ++ [.ran worker label]) = started worker history := by
    rw [started_snoc]
    rfl
  have hended : ended worker (history ++ [.ran worker label]) =
      ended worker history + if label.isRunEnd then 1 else 0 := by
    have hone : (([.ran worker label] : List (Entry W)).filterMap (Entry.ofTasks worker)) = [label] := by
      simp [Entry.ofTasks]
    rw [ended_snoc, show ended worker [.ran worker label] = _ from
      congrArg (List.countP Runner.Label.isRunEnd) hone, List.countP_singleton]
  have hsum : (labels ++ [label]).countP Runner.Label.isRunEnd =
      labels.countP Runner.Label.isRunEnd + if label.isRunEnd then 1 else 0 := by
    rw [List.countP_append, List.countP_singleton]
  have hloop : loopOf worker (history ++ [.ran worker label]) = loopOf worker history := by
    rw [loopOf_append]
    exact List.append_nil _
  cases h with
  | none tasks count => exact absurd (hlabels.symm.trans tasks) nofun
  | executing labels' tasks going count awaited =>
    obtain rfl := Option.some.inj (hlabels.symm.trans tasks)
    by_cases hlabel : label.isRunEnd = true
    · rw [if_pos hlabel] at hended hsum
      exact .finished _ htasks (by omega) (by omega)
    · rw [if_neg hlabel] at hended hsum
      exact .executing _ htasks (by omega) (by omega) (hloop ▸ awaited)
  | finished labels' tasks gone count =>
    obtain rfl := Option.some.inj (hlabels.symm.trans tasks)
    by_cases hlabel : label.isRunEnd = true
    · rw [if_pos hlabel] at hle
      omega
    · rw [if_neg hlabel] at hended hsum
      exact .finished _ htasks (by omega) (by omega)

/-- When `_run_with_abort` is left in harmless steps, the run has ended. -/
theorem Fleet.not_executing {fence : Option RunFence} {result : Runner.Result Unit}
    (h : Fleet (history ++ [.did worker (.called (.runWithAbort fence) result)]))
    {labels : List (Runner.Label Unit)} (hlabels : tasksOf worker history = some labels) :
    labels.countP Runner.Label.isRunEnd ≠ 0 := by
  obtain ⟨labels', s, hlabels', hruns, hleft⟩ := h.left history worker fence result [] rfl
  obtain rfl := Option.some.inj (hlabels.symm.trans hlabels')
  have hfinished := (Runner.leaseSafe_of_harmless hruns).finished result hleft
  rw [Runner.countP_isRunEnd (hruns.mono fun _ _ _ hstep => hstep.1),
    Option.isSome_iff_ne_none.mpr hfinished]
  exact Nat.one_ne_zero

/-- The loop of a worker goes on only when its run has ended. -/
theorem RunsStand.did (h : RunsStand worker history) (hfleet : Fleet (history ++ [.did worker e])) :
    RunsStand worker (history ++ [.did worker e]) := by
  have hnot : (loopOf worker history).getLast? = some (.mark .runStarts) →
      ∀ labels, tasksOf worker history = some labels →
        labels.countP Runner.Label.isRunEnd ≠ 0 := by
    intro hlast labels hlabels
    obtain ⟨fence, result, rfl⟩ := hfleet.answered_next hlast
    exact hfleet.not_executing hlabels
  have hended : ended worker [.did worker e] = 0 := rfl
  by_cases hentered : actionOf e = .entered
  · have htasks : tasksOf worker (history ++ [.did worker e]) = some [] := by
      rw [tasksOf_snoc, Entry.tasks, if_pos ⟨rfl, hentered⟩]
    have hstarted : started worker [.did worker e] = 1 := by
      rw [started, loopOf_self, List.countP_singleton, if_pos (decide_eq_true hentered)]
    have hawaited : (loopOf worker (history ++ [.did worker e])).getLast? =
        some (.mark .runStarts) := by
      rw [loopOf_append, loopOf_self, eq_runStarts_of_entered hentered, List.getLast?_append]
      rfl
    have hcount : started worker history = ended worker history := by
      cases h with
      | none tasks count => exact count
      | executing labels tasks going count awaited => exact absurd going (hnot awaited labels tasks)
      | finished labels tasks gone count => exact count
    refine .executing [] htasks rfl ?_ hawaited
    rw [started_snoc, ended_snoc, hstarted, hended, hcount]
  · have hstarted : started worker [.did worker e] = 0 := by
      rw [started, loopOf_self, List.countP_singleton, if_neg (by simpa using hentered)]
    cases h with
    | executing labels tasks going count awaited => exact absurd going (hnot awaited labels tasks)
    | none tasks count =>
      refine .none ?_ ?_
      · rw [tasksOf_snoc, Entry.tasks, if_neg (fun hboth => hentered hboth.2), tasks]
      · rw [started_snoc, ended_snoc, hstarted, hended, count]
    | finished labels tasks gone count =>
      refine .finished labels ?_ gone ?_
      · rw [tasksOf_snoc, Entry.tasks, if_neg (fun hboth => hentered hboth.2), tasks]
      · rw [started_snoc, ended_snoc, hstarted, hended, count]

/-- The runs of a worker stand in order at every time. -/
theorem Fleet.runsStand (h : Fleet history) (worker : W) : RunsStand worker history := by
  induction history using List.reverseRecOn with
  | nil => exact .none rfl rfl
  | append_singleton history entry ih =>
    have ih := ih h.of_snoc
    cases entry with
    | expired => exact ih.snoc rfl rfl rfl fun _ => rfl
    | ran worker' label =>
      by_cases hworker : worker' = worker
      · subst hworker
        exact ih.ran h
      · refine ih.snoc (if_neg hworker) rfl ?_ fun _ => rfl
        rw [ended, List.filterMap_cons, Entry.ofTasks, if_neg hworker]
        rfl
    | did worker' e =>
      by_cases hworker : worker' = worker
      · subst hworker
        exact ih.did h
      · refine ih.snoc (if_neg fun hboth => hworker hboth.1) ?_ rfl fun _ => loopOf_other hworker e
        rw [started, loopOf_other hworker]
        rfl

/-- A worker with a run that is executing has its grant outstanding. -/
theorem Fleet.outstanding_of_inRun (h : Fleet history) (hrun : InRun worker history) :
    Outstanding worker history := by
  have hlast : (loopOf worker history).getLast? = some (.mark .runStarts) := by
    unfold InRun at hrun
    cases h.runsStand worker with
    | none tasks count => omega
    | executing labels tasks going count awaited => exact awaited
    | finished labels tasks gone count => omega
  obtain ⟨p, haccepts⟩ := h.accepts worker
  obtain ⟨front, hfront⟩ := List.getLast?_eq_some_iff.mp hlast
  rw [Outstanding]
  rw [hfront] at haccepts ⊢
  obtain ⟨phase, phase', -, hnext, hphase'⟩ := haccepts.allowed
  have hmove : p.Move phase .entered phase' := ScheduledPipeline.move_of_nextPhase hnext
  rw [ScheduledPipeline.grants_eq hphase']
  cases hmove
  simp [ScheduledPipeline.outstanding]

/-- **Mutual exclusion.** Two workers have runs of the pipeline that are executing at once only when the
lease of one of them has expired since it was granted. -/
theorem runs_exclusive (h : Fleet history) (hrun : InRun worker history)
    (hrun' : InRun worker' history) (hne : worker ≠ worker') :
    ExpiredFor worker history ∨ ExpiredFor worker' history := by
  rcases h.holds worker (h.outstanding_of_inRun hrun) with hexpired | hheld
  · exact .inl hexpired
  · rcases h.holds worker' (h.outstanding_of_inRun hrun') with hexpired | hheld'
    · exact .inr hexpired
    · exact absurd (Option.some.inj (hheld.symm.trans hheld')) hne

/-! ### An expired lease -/

/-- A pipeline of a leased pool, with nothing but what the pool wires. -/
def ordersPipeline : LeasedPipeline :=
  .wired [] {
    pipelineId := "orders"
    shouldRepeat := true
    maxConsecutiveErrors := 5
    hasExistingHook := false
    hasCurrentLease := true
    hasValidateLease := true
    hasOnRunComplete := false
    observers := [] }

/-- The coordinator grants the lease, with the token 7. -/
def granting : Handler Op Op.Ret Mark := fun _ o =>
  match o with
  | .stopIsSet => false
  | .existingHook => .ok true
  | .tryAcquireLease _ => .ok true
  | .currentLease => .ok (some ⟨"host", 7⟩)
  | .build => .ok true
  | .runWithAbort _ => .returned ()
  | .nextDelay _ => .ok 0
  | .sleep _ => .ok ()
  | .onRunComplete _ => .ok ()
  | .observer _ _ => .ok ()
  | .releaseLease => .ok ()
  | .waitUntilNext => .ok ()
  | .waitAfterSkip => .ok ()

/-- The events of a loop up to its first run. -/
def startingRun : LoopTrace :=
  [.called .stopIsSet false, .called (.tryAcquireLease 1) (.ok true),
    .called .currentLease (.ok (some ⟨"host", 7⟩)), .called .build (.ok true), .mark .runStarts]

/-- The second worker gets the lease once it has expired for the first one, which is told after that. -/
def twoRuns : List (Entry Bool) :=
  startingRun.map (.did false) ++ .expired :: (startingRun.map (.did true) ++ [.ran false .leaseLost])

/-- The history of the two runs is one of a fleet. -/
theorem fleet_twoRuns : Fleet twoRuns where
  loops worker := by
    refine ⟨ordersPipeline, 1, {}, granting, ?_⟩
    cases worker
    · exact ⟨[.called (.runWithAbort (some ⟨"orders", "host", 7⟩)) (.returned ()),
        .called .releaseLease (.ok ()), .called .waitUntilNext (.ok ())], rfl⟩
    · exact ⟨[.called (.runWithAbort (some ⟨"orders", "host", 7⟩)) (.returned ()),
        .called .releaseLease (.ok ()), .called .waitUntilNext (.ok ())], rfl⟩
  tasks before worker label after h := by
    obtain ⟨rfl, ⟨rfl, rfl⟩, -⟩ : before = startingRun.map (.did false) ++ .expired ::
        startingRun.map (.did true) ∧ (worker = false ∧ label = .leaseLost) ∧ after = [] := by
      simpa [twoRuns, startingRun, List.cons_eq_append_iff] using h
    exact ⟨[], _, rfl, Runs.snoc .start ⟨.leaseLost, trivial⟩⟩
  left before worker fence result after h := by
    simp [twoRuns, startingRun, List.cons_eq_append_iff] at h
  exclusive before worker number after h := by
    simp only [twoRuns, startingRun, List.map_cons, List.map_nil, List.cons_append, List.nil_append,
      List.cons_eq_append_iff] at h
    obtain ⟨front, rfl, ⟨rfl, -⟩ | ⟨rfl, -⟩⟩ : ∃ front, before = _ :: front ∧
        ((front = [] ∧ _) ∨ (front = _ ∧ _)) := by simpa using h
    · rfl
    · rfl

/-- Both runs are executing, as the lease of the first worker has expired. -/
theorem runs_exclusive_twoRuns : ExpiredFor false twoRuns ∨ ExpiredFor true twoRuns :=
  runs_exclusive fleet_twoRuns (by decide) (by decide) (by simp)

end AgoraEtl.Leased
