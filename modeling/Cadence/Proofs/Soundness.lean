import Cadence.Proofs.Simulation

/-!
Every step of a scheduler at work keeps it sound.

The layout of a scheduler (its names, and the room of its backlog) changes in two steps only: a
registration before the pool exists, and the making of the pool.
-/

namespace Cadence

/-! ## What the operations keep -/

namespace Scheduler

@[simp] theorem layout_modifyEntry (s : Scheduler) (name : String) {f : Entry → Entry}
    (keeps : ∀ e, (f e).task.name = e.task.name) : (s.modifyEntry name f).layout = s.layout := by
  rw [layout, names_modifyEntry s name keeps]
  rfl

@[simp] theorem layout_setContention (s : Scheduler) (on : Bool) :
    (s.setContention on).layout = s.layout := by
  rw [layout, names_setContention]
  rfl

theorem layout_start {s : Scheduler} (started : s.started = true) : s.start.layout = s.layout := by
  obtain ⟨pool, present⟩ := Option.isSome_iff_exists.mp started
  simp [layout, start, poolOrNew, present, names]

theorem started_of_layout {s t : Scheduler} (same : t.layout = s.layout) :
    t.started = s.started := by
  have pools := congrArg Option.isSome (Prod.mk.inj same).2
  simpa [started] using pools

theorem Sound.start {s : Scheduler} (sound : s.Sound) : s.start.Sound := by
  have made : ∀ p, s.start.pool = some p →
      s.pool = some p ∨ p = { workers := s.workers, capacity := s.backlogCapacity } := by
    intro p present
    rw [Scheduler.start, poolOrNew, Option.some.injEq] at present
    cases before : s.pool with
    | none => exact .inr (by rw [← present, before, Option.getD_none])
    | some q => exact .inl (by rw [← present, before, Option.getD_some])
  refine ⟨sound.distinct, ?_, ?_, ?_⟩
  · intro p present
    rcases made p present with before | rfl
    · exact sound.capacity p before
    · rfl
  · intro p present
    rcases made p present with before | rfl
    · exact sound.running p before
    · rfl
  · intro name
    rw [outstanding_start]
    exact sound.single name

theorem Sound.enroll {s : Scheduler} (sound : s.Sound) {task : Task}
    (unstarted : s.started = false) (unregistered : task.name ∉ s.names) (instant : Instant) :
    (s.enroll task instant).Sound := by
  have unmade : (s.enroll task instant).pool = none := by
    show s.pool = none
    simpa [started] using unstarted
  constructor
  · rw [names_enroll]
    exact List.nodup_append.mpr ⟨sound.distinct, List.nodup_singleton _, by
      intro n member m only same
      rw [List.mem_singleton] at only
      exact unregistered (only ▸ same ▸ member)⟩
  · simp [unmade]
  · simp [unmade]
  · intro name
    simp [outstanding, unmade]

end Scheduler

namespace Dispatcher

theorem sink_act {s t : Dispatcher} {action : Action} (done : s.act action = .ok t) :
    t.sink = s.sink := by
  cases action <;> cases done <;> simp [setMode, setEnabled, setContention, setHealth, permit]

theorem layout_act {s t : Dispatcher} {action : Action} (done : s.act action = .ok t) :
    t.scheduler.layout = s.scheduler.layout := by
  cases action with
  | setMode mode =>
    cases done
    simp [setMode, Scheduler.layout, Scheduler.names]
  | setEnabled on =>
    cases done
    simp [setEnabled, Scheduler.layout, Scheduler.names]
  | setContention on =>
    cases done
    exact Scheduler.layout_setContention _ on
  | setHealth name health =>
    cases done
    exact Scheduler.layout_modifyEntry _ name (fun _ => rfl)
  | permit name =>
    cases done
    exact Scheduler.layout_modifyEntry _ name (fun _ => rfl)
  | advance ns =>
    cases done
    rfl
  | raise what => cases done

theorem layout_consider {s t : Dispatcher} {target : String} {now : Instant}
    {result : Chore.Result} (started : s.scheduler.started = true)
    (considers : s.Considers target now result t.scheduler) :
    t.scheduler.layout = s.scheduler.layout := by
  generalize t.scheduler = scheduler at considers
  cases considers with
  | notDue early => rfl
  | muted e due muted => exact Scheduler.layout_modifyEntry _ target (by simp)
  | refused e due audible denied => exact Scheduler.layout_modifyEntry _ target (by simp)
  | blocked e due audible admitted busy critical =>
    exact Scheduler.layout_modifyEntry _ target (by simp)
  | demoted e next report due audible admitted busy overrun =>
    exact Scheduler.layout_modifyEntry _ target (by simp)
  | rejected e fault due free refused =>
    exact Scheduler.layout_modifyEntry _ target (by simp [Task.mark])
  | started e pool due audible admitted free submitted =>
    obtain ⟨before, present⟩ := Option.isSome_iff_exists.mp started
    rw [Scheduler.poolOrNew, present, Option.getD_some] at submitted
    have size : pool.capacity = before.capacity ∧ pool.closed = before.closed := by
      unfold Pool.submit at submitted
      split at submitted
      · cases submitted
      split at submitted
      · cases submitted
      · cases submitted
        exact ⟨rfl, rfl⟩
    have names := Scheduler.names_modifyEntry s.scheduler target (f := Entry.startRun now)
      (by simp [Task.mark])
    exact Prod.ext names (by simp [Scheduler.layout, present, size])

theorem layout_perform {s t : Dispatcher} {now : Instant} {chore : Chore} {result : Chore.Result}
    (started : s.scheduler.started = true) (done : s.perform now chore = (result, t)) :
    t.scheduler.layout = s.scheduler.layout := by
  cases chore with
  | consider target => exact layout_consider started (considers done)
  | record event target =>
    cases done
    rfl
  | note line =>
    cases done
    rfl
  | act action =>
    simp only [perform] at done
    split at done
    · rename_i acted
      cases done
      exact layout_act acted
    · cases done
      rfl

theorem layout_take {s t : Dispatcher} (taken : s.take? = some t) :
    t.scheduler.layout = s.scheduler.layout := by
  obtain ⟨name, after, pool, present, popped, scheduler, _⟩ := take?_eq_some taken
  have size : after.capacity = pool.capacity ∧ after.closed = pool.closed := by
    unfold Pool.take? at popped
    split at popped
    · split at popped
      · cases popped
        exact ⟨rfl, rfl⟩
      · cases popped
    · cases popped
  have names := Scheduler.names_modifyEntry { s.scheduler with pool := some after } name
    (f := fun e => { e with task := e.task.enter }) (fun _ => rfl)
  rw [scheduler]
  exact Prod.ext names (by simp [Scheduler.layout, Scheduler.modifyTask, Scheduler.modifyEntry,
    present, size])

theorem layout_finish (s : Dispatcher) (run : Run) :
    (s.finish run).scheduler.layout = s.scheduler.layout := by
  have names := Scheduler.names_modifyEntry
    { s.scheduler with pool := s.scheduler.pool.map (·.release run) } run.name
    (f := fun e => { e with task := e.task.complete run.began s.clock }) (fun _ => rfl)
  refine Prod.ext names ?_
  simp only [finish, modifyScheduler, Scheduler.layout, Scheduler.modifyTask, Scheduler.modifyEntry]
  cases s.scheduler.pool <;> rfl

/-- A chore changes the sink by counting an event, or not at all. -/
theorem sink_perform {s t : Dispatcher} {now : Instant} {chore : Chore} {result : Chore.Result}
    (done : s.perform now chore = (result, t)) :
    t.sink = s.sink ∨ ∃ key, t.sink = s.sink.record key := by
  cases chore with
  | consider target => exact .inl (sink_consider done)
  | record event target =>
    cases done
    exact .inr ⟨⟨event, target⟩, rfl⟩
  | note line =>
    cases done
    exact .inl rfl
  | act action =>
    simp only [perform] at done
    split at done
    · rename_i acted
      cases done
      exact .inl (sink_act acted)
    · cases done
      exact .inl rfl

@[simp] theorem sink_opened (s : Dispatcher) : s.opened.sink = s.sink := by
  unfold opened
  split <;> simp

/-- What answers an event is the action of a hook. -/
theorem answered_perform {s t : Dispatcher} {now : Instant} {chore : Chore} {further : List Chore}
    (done : s.perform now chore = (.proceed further, t)) {action : Action}
    (member : Chore.act action ∈ further) : ∃ hook ∈ s.sink.hooks, hook.action = action := by
  cases chore with
  | consider target =>
    have considers := considers done
    generalize t.scheduler = scheduler at considers
    cases considers with
    | notDue early => cases member
    | muted e due muted => simp at member
    | refused e due audible denied => simp at member
    | demoted e next report due audible admitted busy overrun =>
      cases report <;> simp [skipChores] at member
    | started e pool due audible admitted free submitted => cases member
  | record event target =>
    cases done
    obtain ⟨answer, chosen, same⟩ := List.mem_map.mp member
    cases same
    obtain ⟨hook, hooked, rfl⟩ := List.mem_map.mp chosen
    exact ⟨hook, (List.mem_filter.mp hooked).1, rfl⟩
  | note line =>
    cases done
    cases member
  | act other =>
    simp only [perform] at done
    split at done <;> cases done
    cases member

/-- A chore fails only if it is an action that raises a failure. -/
theorem perform_fails {s t : Dispatcher} {now : Instant} {chore : Chore} {fault : Fault}
    (sound : s.scheduler.Sound) (started : s.scheduler.started = true)
    (done : s.perform now chore = (.fail fault, t)) :
    ∃ what, chore = .act (.raise what) ∧ fault = .raised what := by
  cases chore with
  | consider target =>
    have considers := considers done
    generalize t.scheduler = scheduler at considers
    cases considers with
    | rejected e fault due free refused =>
      exact absurd refused (submit_ne_error sound started due.found free fault)
  | record event target => cases done
  | note line => cases done
  | act action =>
    simp only [perform] at done
    split at done
    · cases done
    · rename_i fault' refused
      cases done
      cases action with
      | raise what =>
        cases refused
        exact ⟨what, rfl, rfl⟩
      | _ => cases refused

end Dispatcher

/-! ## Steps -/

namespace Moment

variable {m m' : Moment} {move : Move}

/-- A step keeps the layout, or registers a task before the pool exists, or makes the pool. -/
theorem layout_cases (sound : m.Sound) (made : m.step? move = some m') :
    m'.dispatcher.scheduler.layout = m.dispatcher.scheduler.layout ∨
    (∃ new instant, m.dispatcher.scheduler.started = false ∧
      new.name ∉ m.dispatcher.scheduler.names ∧
      m'.dispatcher.scheduler = m.dispatcher.scheduler.enroll new instant) ∨
    m'.dispatcher.scheduler = m.dispatcher.scheduler.start := by
  cases makes made with
  | registered idle unrefused unstarted unregistered =>
    exact .inr (.inl ⟨_, _, unstarted, unregistered, rfl⟩)
  | refused idle refused => exact .inl rfl
  | started idle => exact .inr (.inr (by simp [withDispatcher]))
  | begun idle =>
    simp only [beginTick, Dispatcher.opened]
    split
    · exact .inr (.inr (by simp))
    · exact .inl rfl
  | performed left done =>
    exact .inl (Dispatcher.layout_perform (sound.started (by simp [left])) done)
  | noted idle => exact .inl rfl
  | acted done => exact .inl (Dispatcher.layout_act done)
  | failed => exact .inl rfl
  | hooked => exact .inl rfl
  | taken taken => exact .inl (Dispatcher.layout_take taken)
  | finished held ready => exact .inl (Dispatcher.layout_finish _ _)

/-- Once the pool exists, no step changes the registered names or the room of the backlog. -/
theorem layout_step (sound : m.Sound) (started : m.dispatcher.scheduler.started = true)
    (made : m.step? move = some m') :
    m'.dispatcher.scheduler.layout = m.dispatcher.scheduler.layout := by
  rcases layout_cases sound made with same | ⟨_, _, unstarted, _⟩ | made
  · exact same
  · rw [started] at unstarted
    cases unstarted
  · rw [made, Scheduler.layout_start started]

/-- The standing of a task knows whether it is in progress. -/
theorem single_iff {name : String} : (m.standing name).Single ↔
    m.dispatcher.scheduler.outstanding.count name ≤ (m.dispatcher.scheduler.busy name).toNat := by
  rw [Scheduler.busy, Scheduler.task?, Option.any_map]
  exact Iff.rfl

theorem scheduler_step (sound : m.Sound) (made : m.step? move = some m') :
    m'.dispatcher.scheduler.Sound := by
  rcases layout_cases sound made with same | ⟨new, instant, unstarted, unregistered, made⟩ | made
  · refine sound.scheduler.of_layout same ?_
    intro name
    have single := single_iff.mpr (sound.scheduler.single name)
    exact single_iff.mp ((standing_step sound ‹_› name).single single)
  · rw [made]
    exact sound.scheduler.enroll unstarted unregistered instant
  · rw [made]
    exact sound.scheduler.start

/-- A step adds a hook if it is meant to, and none otherwise; it counts an event, or none. -/
theorem sink_step (made : m.step? move = some m') :
    m'.dispatcher.sink = m.dispatcher.sink ∨
    (∃ key, m'.dispatcher.sink = m.dispatcher.sink.record key) ∨
    ∃ hook, move = .hook hook ∧ m'.dispatcher = m.dispatcher.addHook hook := by
  cases makes made with
  | registered idle unrefused unstarted unregistered => exact .inl rfl
  | refused idle refused => exact .inl rfl
  | started idle => exact .inl (by simp [withDispatcher])
  | begun idle => exact .inl (Dispatcher.sink_opened _)
  | performed left done =>
    rcases Dispatcher.sink_perform done with same | counted
    · exact .inl same
    · exact .inr (.inl counted)
  | noted idle => exact .inl rfl
  | acted done => exact .inl (Dispatcher.sink_act done)
  | failed => exact .inl rfl
  | hooked => exact .inr (.inr ⟨_, rfl, rfl⟩)
  | taken taken =>
    obtain ⟨_, _, _, _, _, _, sink⟩ := Dispatcher.take?_eq_some taken
    exact .inl sink
  | finished held ready => exact .inl rfl

/-- No hook is ever removed. -/
theorem hooks_step (made : m.step? move = some m') :
    m.dispatcher.sink.hooks ⊆ m'.dispatcher.sink.hooks := by
  rcases sink_step made with same | ⟨key, counted⟩ | ⟨hook, _, added⟩
  · rw [same]
    exact List.Subset.refl _
  · rw [counted]
    exact List.Subset.refl _
  · rw [added]
    exact List.subset_append_left _ _

theorem started_step (sound : m.Sound) (made : m.step? move = some m') (left : m'.chores ≠ []) :
    m'.dispatcher.scheduler.started = true := by
  -- a tick that was under way before the step has its pool still
  have kept : m.chores ≠ [] → m'.dispatcher.scheduler.started = true := by
    intro within
    have started := sound.started within
    rw [Scheduler.started_of_layout (layout_step sound started made), started]
  cases makes made with
  | @begun now idle =>
    simp only [beginTick, Dispatcher.agenda] at left
    simp only [beginTick, Dispatcher.opened]
    split at left
    · rename_i enabled
      rw [if_pos enabled, Dispatcher.scheduler_start]
      rfl
    · exact absurd rfl left
  | performed within done => exact kept (by simp [within])
  | _ => exact kept left

theorem ordered_step (sound : m.Sound) (made : m.step? move = some m') :
    m'.chores.Pairwise fun c d => c.level = 3 → d.level = 3 := by
  cases makes made with
  | @begun now idle =>
    refine List.pairwise_iff_forall_sublist.mpr fun {c d} sub _ => ?_
    obtain ⟨name, _, rfl⟩ := consider_of_mem_agenda (sub.subset (by simp : d ∈ [c, d]))
    rfl
  | @performed chore rest result t left done =>
    have ordered := List.pairwise_cons.mp (left ▸ sound.ordered)
    cases result with
    | proceed further =>
      -- what a chore leads to comes before any evaluation
      have lower : ∀ c ∈ further, c.level ≠ 3 := by
        intro c member
        have below := Dispatcher.level_lt_of_perform done c member
        have : chore.level ≤ 3 := by cases chore <;> simp [Chore.level]
        omega
      refine List.pairwise_append.mpr ⟨?_, ordered.2, ?_⟩
      · exact List.pairwise_iff_forall_sublist.mpr fun {c d} sub level =>
          absurd level (lower c (sub.subset (by simp)))
      · intro c member d _ level
        exact absurd level (lower c member)
    | stop => exact .nil
    | fail fault => exact .nil
  | _ => exact sound.ordered

theorem answered_step (sound : m.Sound) (made : m.step? move = some m') {action : Action}
    (member : Chore.act action ∈ m'.chores) :
    ∃ hook ∈ m'.dispatcher.sink.hooks, hook.action = action := by
  have kept : Chore.act action ∈ m.chores →
      ∃ hook ∈ m'.dispatcher.sink.hooks, hook.action = action := by
    intro within
    obtain ⟨hook, hooked, same⟩ := sound.answered action within
    exact ⟨hook, hooks_step made hooked, same⟩
  cases makes made with
  | @begun now idle =>
    obtain ⟨name, _, same⟩ := consider_of_mem_agenda member
    cases same
  | @performed chore rest result t left done =>
    cases result with
    | proceed further =>
      rcases List.mem_append.mp member with new | old
      · obtain ⟨hook, hooked, same⟩ := Dispatcher.answered_perform done new
        exact ⟨hook, hooks_step made hooked, same⟩
      · exact kept (left ▸ List.mem_cons_of_mem _ old)
    | stop => cases member
    | fail fault => cases member
  | _ => exact kept member

theorem faulted_step (sound : m.Sound) (made : m.step? move = some m') {fault : Fault}
    (failed : m'.verdict = .fail fault) : m'.dispatcher.sink.Raises fault := by
  have kept : m.verdict = .fail fault → m'.dispatcher.sink.Raises fault := by
    intro before
    obtain ⟨hook, hooked, what, raises, same⟩ := sound.faulted fault before
    exact ⟨hook, hooks_step made hooked, what, raises, same⟩
  cases makes made with
  | begun idle => cases failed
  | @performed chore rest result t left done =>
    cases result with
    | proceed further => exact kept failed
    | stop => cases failed
    | fail other =>
      cases failed
      have started := sound.started (by simp [left])
      obtain ⟨what, rfl, rfl⟩ := Dispatcher.perform_fails sound.scheduler started done
      obtain ⟨hook, hooked, raises⟩ := sound.answered (.raise what) (by simp [left])
      exact ⟨hook, hooks_step made hooked, what, raises, rfl⟩
  | _ => exact kept failed

/-- Every step keeps a moment sound. -/
theorem sound_step (sound : m.Sound) (made : m.step? move = some m') : m'.Sound := by
  refine ⟨scheduler_step sound made, ?_, started_step sound made, ordered_step sound made,
    fun _ => answered_step sound made, fun _ => faulted_step sound made⟩
  rcases sink_step made with same | ⟨key, counted⟩ | ⟨hook, _, added⟩
  · exact same ▸ sound.counters
  · exact counted ▸ Tally.ascending_record sound.counters key
  · exact added ▸ sound.counters

/-- A scheduler that was just made is sound. -/
theorem sound_initial {workers : Nat} {scheduler : Scheduler}
    (created : Scheduler.create workers = .ok scheduler) : (initial scheduler).Sound := by
  obtain ⟨_, rfl⟩ := Scheduler.eq_of_create created
  refine ⟨⟨List.nodup_nil, ?_, ?_, ?_⟩, List.Pairwise.nil, ?_, List.Pairwise.nil, ?_, ?_⟩
  all_goals simp [initial, Scheduler.outstanding]

/-- Every moment that is reached from a sound one is sound. -/
theorem Sound.of_reaches {allowed : Move → Prop} {first : Moment} (sound : first.Sound)
    (reached : Reaches allowed first m) : m.Sound := by
  induction reached with
  | refl => exact sound
  | step before may made ih => exact sound_step ih made

/-- Every moment that is reached from a new scheduler is sound. -/
theorem Reaches.sound {workers : Nat} {scheduler : Scheduler}
    (created : Scheduler.create workers = .ok scheduler) {allowed : Move → Prop}
    (reached : Reaches allowed (initial scheduler) m) : m.Sound :=
  (sound_initial created).of_reaches reached

end Moment

end Cadence
