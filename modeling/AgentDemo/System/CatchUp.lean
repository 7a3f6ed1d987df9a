import AgentDemo.System.Schedules

/-! No catch-up burst: a schedule that a tick has treated is not due again at that time, whatever
the clocks of the processes are. -/
namespace AgentDemo

/-- Not selected by a tick at `time` or before. -/
def TaskSchedule.NotDue (s : TaskSchedule) (time : Instant) : Prop :=
  s.enabled = false ∨ ∃ next, s.nextRunAt = some next ∧ time < next

/-- The requests that switch a schedule on. -/
def Event.Reenables (scheduleId : UUID) : Event → Prop
  | .updateTaskSchedule _ id payload => id = scheduleId ∧ payload.enabled
  | _ => False

theorem TaskSchedule.NotDue.of_dispatch {env : Environment} {tasks tasks' : Table Task}
    {s s' : TaskSchedule} {id : UUID} {time createdAt : Instant} {run : Option QueuedRun}
    (h : dispatchSchedule env tasks s id time createdAt = .ok (tasks', s', run)) :
    s'.NotDue time := by
  have moved {occurrence : Instant} {next : Option Instant} (status : DispatchStatus)
      (hp : planDispatch env s time = .ok (occurrence, next)) :
      (dispatchMoved s time next status).NotDue time := by
    cases next with
    | none => exact Or.inl rfl
    | some n => exact Or.inr ⟨n, rfl, nextRunAfterOccurrence_gt (planDispatch_eq_ok hp).2⟩
  rcases dispatchSchedule_eq_ok h with ⟨e, -, -, rfl, -⟩ | ⟨o, n, st, hp, -, -, rfl, -⟩ |
    ⟨o, n, hp, -, -, -, rfl, -⟩
  · exact Or.inl rfl
  · exact moved st hp
  · exact moved .queued hp

theorem enabled_updateTaskSchedule {env : Environment} {s s' : TaskSchedule}
    {payload : TaskScheduleUpdate} {now now' : Instant}
    (h : updateTaskSchedule env s payload now now' = .ok s') : s'.enabled = payload.enabled := by
  unfold updateTaskSchedule at h
  split at h
  · split at h
    · cases h
    · exact Except.ok.inj h ▸ rfl
  · exact Except.ok.inj h ▸ rfl

/-- A resumed schedule runs after the clock that the request has read last. -/
theorem nextRunAt_updateTaskSchedule {env : Environment} {s s' : TaskSchedule}
    {payload : TaskScheduleUpdate} {now now' : Instant}
    (h : updateTaskSchedule env s payload now now' = .ok s') (henabled : payload.enabled) :
    ∃ next, s'.nextRunAt = some next ∧ (if lapsed s.nextRunAt now then now' else now) < next := by
  unfold updateTaskSchedule at h
  by_cases hlapsed : lapsed s.nextRunAt now
  · rw [if_pos ⟨henabled, hlapsed⟩] at h
    rw [if_pos hlapsed]
    cases hi : initialNextRun env s.scheduleKind s.timezone now' (s.runAt.map RunAt.aware)
        s.intervalSeconds s.dailyTime with
    | error e => simp [hi] at h
    | ok next =>
      simp only [hi, Except.ok.injEq] at h
      subst h
      exact ⟨next, rfl, (initialNextRun_eq_ok hi).1⟩
  · rw [if_neg fun hboth => hlapsed hboth.2] at h
    rw [if_neg hlapsed]
    obtain rfl := Except.ok.inj h
    cases hnext : s.nextRunAt with
    | none => exact absurd (by simp [lapsed, hnext]) hlapsed
    | some next => exact ⟨next, rfl, by simpa [lapsed, hnext] using hlapsed⟩

namespace World

/-- A transaction of any process; the clocks of different processes need not agree. -/
def AnyClock (env : Environment) (w : World) (a : Action) (w' : World) : Prop :=
  ∃ clock, w' = { w.apply env a.now a.now' a.event with clock }

theorem KeptBySchedules.anyClock {env : Environment} {P : TaskSchedule → Prop} {w w' : World}
    (hP : KeptBySchedules env P) (h : Transition.Reaches (AnyClock env) w w')
    (hw : ∀ s ∈ w.schedules.rows, P s) : ∀ s ∈ w'.schedules.rows, P s := by
  refine h.invariant (I := fun u => ∀ s ∈ u.schedules.rows, P s) hw ?_
  rintro u a v hu ⟨clock, rfl⟩
  exact hP.apply a hu

theorem keptBySchedules_next (env : Environment) :
    KeptBySchedules env fun s => s.enabled → ∃ next, s.nextRunAt = some next where
  create := by
    intro _ _ _ _ _ _ _ s hc hi _
    obtain ⟨new, next, -, hi', -, hnext, -⟩ := createTaskSchedule_eq_ok hc
    exact ⟨next, Table.insert?_inj hi hi' ▸ hnext⟩
  change := by
    intro a s s' h hchange henabled
    cases hchange with
    | same => exact h henabled
    | ran => exact h henabled
    | update _ payload _ hu =>
      obtain ⟨next, hnext, -⟩ :=
        nextRunAt_updateTaskSchedule hu (enabled_updateTaskSchedule hu ▸ henabled)
      exact ⟨next, hnext⟩
    | dispatch time _ _ hs =>
      rcases TaskSchedule.NotDue.of_dispatch hs with hoff | ⟨next, hnext, -⟩
      · exact absurd (henabled.symm.trans hoff) (by simp)
      · exact ⟨next, hnext⟩

theorem notDue_change {env : Environment} {a : Action} {s s' : TaskSchedule} {time : Instant}
    (h : s.NotDue time) (hchange : ScheduleChange env a s s') (hkeep : ¬ a.event.Reenables s.id) :
    s'.NotDue time := by
  cases hchange with
  | same => exact h
  | ran => exact h
  | update _ payload hevent hu =>
    rw [hevent] at hkeep
    have hoff : payload.enabled ≠ true := fun hon => hkeep ⟨rfl, hon⟩
    exact Or.inl ((enabled_updateTaskSchedule hu).trans (by simpa using hoff))
  | dispatch time' henabled hdue hs =>
    obtain ⟨due, hdue', hpassed⟩ := hdue
    rcases h with hoff | ⟨next, hnext, hlt⟩
    · exact absurd (henabled.symm.trans hoff) (by simp)
    · obtain rfl := Option.some.inj (hnext.symm.trans hdue')
      rcases TaskSchedule.NotDue.of_dispatch hs with hoff | ⟨next', hnext', hlt'⟩
      · exact Or.inl hoff
      · exact Or.inr ⟨next', hnext', (hlt.trans_le hpassed).trans hlt'⟩

/-- Until it is switched on again, the schedule stays away from ticks of that time. -/
theorem notDue_run {env : Environment} {w w' : World} {id : UUID} {time : Instant}
    {s : TaskSchedule} (hget : w.schedules.get? id = some s) (h : s.NotDue time)
    (hrun : Transition.Reaches
      (Transition.Restrict (AnyClock env) fun _ a => ¬ a.event.Reenables id) w w') :
    ∃ s', w'.schedules.get? id = some s' ∧ s'.NotDue time := by
  refine hrun.invariant (I := fun u => ∃ s', u.schedules.get? id = some s' ∧ s'.NotDue time)
    ⟨s, hget, h⟩ ?_
  rintro u a v ⟨t, ht, hdue⟩ ⟨⟨clock, rfl⟩, hkeep⟩
  obtain ⟨t', ht', hchange⟩ := scheduleChange_apply env u a ht
  have hid : t.id = id := (Table.get?_eq_some.mp ht).2
  exact ⟨t', ht', notDue_change hdue hchange (hid.symm ▸ hkeep)⟩

/-- Every enabled schedule has a next run. A schedule that a tick selects is disabled by it, or
due only after the time of the tick, so that no tick of that time or an earlier one selects it
again before it is switched on, and then its next run is after the clock of the request. -/
theorem no_catch_up_burst (env : Environment) :
    (∀ conversations clock w, Transition.Reaches (AnyClock env) (initial conversations clock) w →
      ∀ s ∈ w.schedules.rows, s.enabled → ∃ next, s.nextRunAt = some next) ∧
    (∀ tasks schedules ids locked time createdAt batch,
      dispatchDueSchedules env tasks schedules ids locked time createdAt = .ok batch →
      ∀ due ∈ dueSchedules schedules time locked,
        ∃ s, batch.schedules.get? due.id = some s ∧ s.NotDue time ∧
          ∀ w w' : World, w.schedules = batch.schedules →
            Transition.Reaches
              (Transition.Restrict (AnyClock env) fun _ a => ¬ a.event.Reenables due.id) w w' →
            ∀ time' ≤ time, ∀ locked', ∀ s' ∈ dueSchedules w'.schedules time' locked',
              s'.id ≠ due.id) ∧
    ∀ s s' payload now now', updateTaskSchedule env s payload now now' = .ok s' → s'.enabled →
      ∃ next, s'.nextRunAt = some next ∧ (if lapsed s.nextRunAt now then now' else now) < next := by
  refine ⟨?_, ?_, ?_⟩
  · intro conversations clock w hw
    refine (keptBySchedules_next env).anyClock hw ?_
    intro s hs
    simp [initial, Table.empty] at hs
  · intro tasks schedules ids locked time createdAt batch hd due hdue
    have hnodup := nodup_dueSchedules schedules time locked
    rcases dispatchLoop_view hnodup hd due.id with ⟨hnot, -⟩ |
      ⟨due', hdue', hid, tasks', tasks'', s, run, hs, hget, -⟩
    · exact absurd (List.mem_map_of_mem hdue) hnot
    have hrow : schedules.get? due.id = some due :=
      Table.get?_eq_some.mpr ⟨(mem_dueSchedules hdue).1, rfl⟩
    have hnew : batch.schedules.get? due.id = some s :=
      hget.trans (congrArg (Option.map fun _ => s) hrow)
    have hdone := TaskSchedule.NotDue.of_dispatch hs
    refine ⟨s, hnew, hdone, ?_⟩
    intro w w' heq hrun time' hle locked' t ht hid'
    obtain ⟨s', hget', hnotDue⟩ := notDue_run (heq ▸ hnew) hdone hrun
    obtain ⟨hmem, henabled, ⟨at', hat, hpast⟩, -⟩ := mem_dueSchedules ht
    have hgett : w'.schedules.get? due.id = some t := Table.get?_eq_some.mpr ⟨hmem, hid'⟩
    obtain rfl := Option.some.inj (hgett.symm.trans hget')
    rcases hnotDue with hoff | ⟨next, hnext, hlt⟩
    · exact absurd (henabled.symm.trans hoff) (by simp)
    · obtain rfl := Option.some.inj (hnext.symm.trans hat)
      exact absurd (hpast.trans hle) (not_le.mpr hlt)
  · intro s s' payload now now' hu henabled
    exact nextRunAt_updateTaskSchedule hu (enabled_updateTaskSchedule hu ▸ henabled)

end World

end AgentDemo
