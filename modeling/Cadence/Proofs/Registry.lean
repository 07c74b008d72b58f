import Cadence.Dispatcher.Tick

/-!
Looking up a task by its name: a change of one entry is seen under its name and under no other, and
no operation but a registration changes the list of names.  A registration that is refused changes nothing
(`Scheduler.register_of_fault`).
-/

namespace Cadence

/-! ## Operations of the control thread that leave the scheduler or the sink alone -/

namespace Dispatcher

variable (s : Dispatcher)

@[simp] theorem scheduler_note (level : Level) (text : String) :
    (s.note level text).scheduler = s.scheduler := rfl

@[simp] theorem sink_note (level : Level) (text : String) : (s.note level text).sink = s.sink := rfl

@[simp] theorem scheduler_noteWhen (condition : Bool) (level : Level) (text : String) :
    (s.noteWhen condition level text).scheduler = s.scheduler := by
  unfold noteWhen
  split <;> rfl

@[simp] theorem sink_noteWhen (condition : Bool) (level : Level) (text : String) :
    (s.noteWhen condition level text).sink = s.sink := by
  unfold noteWhen
  split <;> rfl

@[simp] theorem scheduler_modifyScheduler (f : Scheduler → Scheduler) :
    (s.modifyScheduler f).scheduler = f s.scheduler := rfl

@[simp] theorem sink_modifyScheduler (f : Scheduler → Scheduler) :
    (s.modifyScheduler f).sink = s.sink := rfl

@[simp] theorem scheduler_advance (ns : Int64) : (s.advance ns).scheduler = s.scheduler := rfl

@[simp] theorem sink_advance (ns : Int64) : (s.advance ns).sink = s.sink := rfl

/-- Making the pool is the scheduler's business; a pool that exists is kept. -/
@[simp] theorem scheduler_start : s.start.scheduler = s.scheduler.start := by
  unfold start
  split
  · rename_i started
    obtain ⟨pool, present⟩ := Option.isSome_iff_exists.mp started
    rw [Scheduler.start, Scheduler.poolOrNew, present, Option.getD_some, ← present]
  · simp

@[simp] theorem sink_start : s.start.sink = s.sink := by
  unfold start
  split <;> simp

end Dispatcher

/-! ## Entries -/

namespace Scheduler

/-- A scheduler that was just made has a number of workers, and nothing besides. -/
theorem eq_of_create {workers : Nat} {s : Scheduler} (created : create workers = .ok s) :
    ∃ workers_pos, s = { workers, workers_pos } := by
  unfold create at created
  split at created
  · rename_i workers_pos
    cases created
    exact ⟨workers_pos, rfl⟩
  · cases created

variable {s : Scheduler} {name : String} {e : Entry}

theorem entry?_name (found : s.entry? name = some e) : e.task.name = name := by
  have := List.find?_some found
  simpa using this

theorem mem_of_found (found : s.entry? name = some e) : e ∈ s.entries :=
  List.mem_of_find?_eq_some found

theorem entry?_eq_none_iff : s.entry? name = none ↔ name ∉ s.names := by
  simp [Scheduler.entry?, names]

theorem name_mem_names (member : e ∈ s.entries) : e.task.name ∈ s.names :=
  List.mem_map_of_mem member

/-- Under distinct names an entry is the one of its name. -/
theorem entry?_of_mem (distinct : s.names.Nodup) (member : e ∈ s.entries) :
    s.entry? e.task.name = some e := by
  unfold entry?
  unfold names at distinct
  generalize s.entries = entries at distinct member ⊢
  induction entries with
  | nil => cases member
  | cons first rest ih =>
    obtain ⟨absent, distinct⟩ := List.nodup_cons.mp distinct
    rcases List.mem_cons.mp member with rfl | member
    · simp
    · have different : first.task.name ≠ e.task.name := by
        intro same
        exact absent (List.mem_map.mpr ⟨e, member, same.symm⟩)
      rw [List.find?_cons_of_neg (by simpa using different)]
      exact ih distinct member

variable (s)

theorem names_modifyEntry (target : String) {f : Entry → Entry}
    (keeps : ∀ e, (f e).task.name = e.task.name) : (s.modifyEntry target f).names = s.names := by
  unfold names modifyEntry
  rw [List.map_map]
  apply List.map_congr_left
  intro e _
  simp only [Function.comp_apply]
  split
  · exact keeps e
  · rfl

theorem entry?_modifyEntry_self (name : String) {f : Entry → Entry}
    (keeps : ∀ e, (f e).task.name = e.task.name) :
    entry? (s.modifyEntry name f) name = (s.entry? name).map f := by
  unfold entry? modifyEntry
  induction s.entries with
  | nil => rfl
  | cons first rest ih =>
    by_cases same : first.task.name = name
    · simp [same, keeps]
    · simpa [same] using ih

theorem entry?_modifyEntry_of_ne {target name : String} (different : name ≠ target)
    {f : Entry → Entry} (keeps : ∀ e, (f e).task.name = e.task.name) :
    entry? (s.modifyEntry target f) name = s.entry? name := by
  unfold entry? modifyEntry
  induction s.entries with
  | nil => rfl
  | cons first rest ih =>
    by_cases sought : first.task.name = name
    · have other : first.task.name ≠ target := sought ▸ different
      simp [sought, different]
    · by_cases same : first.task.name = target
      · simpa [same, keeps, different.symm] using ih
      · simpa [same, sought] using ih

theorem names_setContention (on : Bool) : (s.setContention on).names = s.names := by
  simp [names, setContention, Function.comp_def]

theorem entry?_setContention (on : Bool) (name : String) : entry? (s.setContention on) name =
    (s.entry? name).map fun e => { e with task := { e.task with contention := on } } := by
  unfold entry? setContention
  exact List.find?_map

theorem names_enroll (task : Task) (instant : Instant) :
    (s.enroll task instant).names = s.names ++ [task.name] := by
  simp [names, enroll]

theorem entry?_enroll_self {task : Task} (absent : task.name ∉ s.names) (instant : Instant) :
    entry? (s.enroll task instant) task.name =
      some ⟨{ task with contention := s.contention }, instant.after task.interval⟩ := by
  have none := entry?_eq_none_iff.mpr absent
  unfold entry? at none
  simp only [Scheduler.entry?, enroll, List.find?_append, none, Option.none_or]
  simp

theorem entry?_enroll_of_ne {task : Task} (different : name ≠ task.name) (instant : Instant) :
    entry? (s.enroll task instant) name = s.entry? name := by
  simp [Scheduler.entry?, enroll, List.find?_append, different.symm]

variable {s}

/-- Nothing speaks against a task before there is a pool, under a name that is not taken. -/
theorem refusal?_eq_none_iff : s.refusal? name = none ↔ s.started = false ∧ name ∉ s.names := by
  unfold refusal?
  split
  · rename_i started
    simp [started]
  · rename_i unstarted
    simp [unstarted]

/-- A task that is not refused is registered. -/
theorem register_of_unrefused {task : Task} (unrefused : s.refusal? task.name = none)
    (instant : Instant) : s.register (some task) instant =
      { offered := some { task with contention := s.contention }, scheduler := s.enroll task instant } := by
  simp only [register, unrefused]

/-- A registration that is refused leaves the scheduler and the task that was offered as they were. -/
theorem register_of_fault {offered : Option Task} {instant : Instant} {fault : Fault}
    (refused : (s.register offered instant).fault? = some fault) :
    s.register offered instant = { fault? := some fault, offered, scheduler := s } := by
  cases offered with
  | none =>
    cases refused
    rfl
  | some task =>
    cases refusal : s.refusal? task.name with
    | some reason =>
      simp only [register, refusal, Option.some.injEq] at refused ⊢
      rw [refused]
    | none =>
      rw [register_of_unrefused refusal] at refused
      cases refused

end Scheduler

end Cadence
