import Mathlib.Algebra.Ring.Nat
import Mathlib.Data.List.Perm.Basic
import Mathlib.Logic.Relation
import PackageLint.TaskQueue

/-!
# Schedules of a queue

The tasks of a queue run beside each other. Any of them that has not ended may take the next step: push a
further task on the queue, or end. Meanwhile the caller pushes the first tasks and then waits: whenever
nothing is being waited for, all tasks that are pending are taken together, and they are waited for until
the last of them has ended. Those that were pushed in the meantime are pending again, whether they have
ended or not. A schedule is any sequence of such steps.

The tasks are taken in the order of their pushes, so it is enough to know how many have been taken, and how
many of them need not be waited for any more.

## Main definitions

* `TaskQueue.Job.family`, `TaskQueue.familyOfAll` — the tasks that tasks lead to
* `TaskQueue.Started`, `TaskQueue.State` — a task on its way, and a queue
* `TaskQueue.Step`, `TaskQueue.Reaches` — one step of a queue, and many
* `TaskQueue.Sound` — what every schedule preserves
* `TaskQueue.KeepsPushes` — tasks are exchanged for others that push what these are exchanged for

## Main results

* `TaskQueue.Step.sound`, `TaskQueue.Reaches.sound` — what a step preserves, and what a schedule does
* `TaskQueue.Sound.ended_once` — at the end every task has ended once
* `TaskQueue.wellFounded_step`, `TaskQueue.Sound.exists_step` — schedules end, and only at the end
* `TaskQueue.reaches_map_iff` — schedules do not depend on how tasks end
-/

namespace PackageLint.TaskQueue

variable {α β : Type}

/-! ### Families of tasks -/

mutual

/-- The tasks that a task leads to, itself included. -/
def Job.family : Job α → List (Job α)
  | .mk label pushes result => .mk label pushes result :: familyOfAll pushes

/-- The tasks that tasks lead to, themselves included. -/
def familyOfAll : List (Job α) → List (Job α)
  | [] => []
  | job :: rest => job.family ++ familyOfAll rest

end

theorem Job.family_eq (job : Job α) : job.family = job :: familyOfAll job.pushes := by
  cases job
  rfl

theorem familyOfAll_cons (job : Job α) (jobs : List (Job α)) :
    familyOfAll (job :: jobs) = job :: (familyOfAll job.pushes ++ familyOfAll jobs) := by
  rw [familyOfAll, Job.family_eq, List.cons_append]

/-! ### Queues step by step -/

/-- A task that has been pushed. -/
structure Started (α : Type) where
  /-- The number of its push. -/
  number : Nat
  /-- What it does. -/
  job : Job α
  /-- What it has yet to push, until it has ended. -/
  left : Option (List (Job α))

/-- A task when it is pushed. -/
def Started.of (number : Nat) (job : Job α) : Started α :=
  { number, job, left := some job.pushes }

/-- The number of a task and what it does. -/
def Started.entry (task : Started α) : Nat × Job α := (task.number, task.job)

/-- The tasks that a task leads to and that have not been pushed. -/
def Started.ahead (task : Started α) : List (Job α) := familyOfAll (task.left.getD [])

/-- A queue on its way. -/
structure State (α : Type) where
  /-- What the caller pushes before it waits. -/
  coming : List (Job α)
  /-- The tasks in the order of their pushes. -/
  tasks : List (Started α) := []
  /-- The number of the tasks that have been taken to be waited for. -/
  taken : Nat := 0
  /-- The number of the tasks that need not be waited for any more. -/
  joined : Nat := 0
  /-- The numbers of the tasks that have ended and what they did, in the order of their ends. -/
  ended : List (Nat × Job α) := []

namespace State

/-- The tasks that are waited for. -/
def batch (s : State α) : List (Started α) := (s.tasks.take s.taken).drop s.joined

/-- The tasks that are pending. -/
def pending (s : State α) : List (Started α) := s.tasks.drop s.taken

/-- A queue on which a task is pushed. -/
def push (s : State α) (job : Job α) : State α :=
  { s with tasks := s.tasks ++ [.of (s.tasks.length + 1) job] }

/-- Whether the caller has waited until nothing is pending. -/
structure IsOver (s : State α) : Prop where
  coming : s.coming = []
  joined : s.joined = s.taken
  pending : s.pending = []

end State

/-- A queue before the caller pushes some tasks. -/
def start (jobs : List (Job α)) : State α := { coming := jobs }

/-- The caller or one of the tasks takes a step. -/
inductive Step : State α → State α → Prop
  | call {s : State α} {job : Job α} {rest : List (Job α)} (h : s.coming = job :: rest) :
      Step s ({ s with coming := rest }.push job)
  | push {s : State α} {before after : List (Started α)} {task : Started α} {job : Job α}
      {rest : List (Job α)} (h : s.tasks = before ++ task :: after)
      (hleft : task.left = some (job :: rest)) :
      Step s ({ s with tasks := before ++ { task with left := some rest } :: after }.push job)
  | finish {s : State α} {before after : List (Started α)} {task : Started α}
      (h : s.tasks = before ++ task :: after) (hleft : task.left = some []) :
      Step s
        { s with
          tasks := before ++ { task with left := none } :: after
          ended := s.ended ++ [task.entry] }
  | take {s : State α} (hcoming : s.coming = []) (hidle : s.joined = s.taken)
      (hpending : s.pending ≠ []) : Step s { s with taken := s.tasks.length }
  | join {s : State α} (hwaits : s.joined < s.taken)
      (hover : ∀ task ∈ s.batch, task.left = none) : Step s { s with joined := s.taken }

/-- A schedule leads from one state to another. -/
abbrev Reaches : State α → State α → Prop := Relation.ReflTransGen Step

variable {s s' : State α} {jobs : List (Job α)}

/-! ### What every schedule preserves -/

/-- The tasks of a queue are numbered by their pushes, have ended once or not at all, and are with what is
still to be pushed the whole family. What need not be waited for any more has ended. -/
structure Sound (jobs : List (Job α)) (s : State α) : Prop where
  joined_le : s.joined ≤ s.taken
  taken_le : s.taken ≤ s.tasks.length
  finished : ∀ task ∈ s.tasks.take s.joined, task.left = none
  numbers : s.tasks.map Started.number = List.range' 1 s.tasks.length
  ended : s.ended.Perm ((s.tasks.filter fun task => task.left.isNone).map Started.entry)
  family : (s.tasks.map Started.job ++ (s.tasks.flatMap Started.ahead ++ familyOfAll s.coming)).Perm
    (familyOfAll jobs)

theorem sound_start (jobs : List (Job α)) : Sound jobs (start jobs) where
  joined_le := Nat.le_refl 0
  taken_le := Nat.le_refl 0
  finished := by simp [start]
  numbers := rfl
  ended := .refl _
  family := .refl _

/-- A task that has not ended is among those that may have to be waited for. -/
theorem Sound.joined_le_length {before after : List (Started α)} {task : Started α}
    (h : Sound jobs s) (htasks : s.tasks = before ++ task :: after) (hleft : task.left ≠ none) :
    s.joined ≤ before.length := by
  by_contra hlt
  refine hleft (h.finished task ?_)
  obtain ⟨n, hn⟩ := Nat.exists_eq_add_of_lt (Nat.lt_of_not_le hlt)
  rw [htasks, hn, Nat.add_assoc, List.take_length_add_append, List.take_succ_cons]
  simp

/-- To push a task changes nothing that is sound, as long as the task was to be pushed. -/
theorem Sound.push {coming : List (Job α)} {job : Job α} (h : Sound jobs s)
    (hcoming : s.coming = job :: coming) : Sound jobs ({ s with coming }.push job) where
  joined_le := h.joined_le
  taken_le := by
    have hle := h.taken_le
    simp only [State.push, List.length_append]
    omega
  finished := by
    have hle : s.joined ≤ s.tasks.length := Nat.le_trans h.joined_le h.taken_le
    have hover := h.finished
    simpa only [State.push, List.take_append_of_le_length hle] using hover
  numbers := by
    simp only [State.push, List.map_append, List.length_append, List.map_cons, List.map_nil,
      List.length_singleton, List.range'_concat, Started.of, h.numbers]
    rw [Nat.add_comm s.tasks.length, Nat.one_mul]
  ended := by
    have hended := h.ended
    simpa [State.push, Started.of] using hended
  family := by
    refine List.Perm.trans ?_ h.family
    have hnew : (Started.of (s.tasks.length + 1) job).ahead = familyOfAll job.pushes := rfl
    simp only [State.push, List.map_append, List.map_cons, List.map_nil, List.flatMap_append,
      List.flatMap_cons, List.flatMap_nil, List.append_nil, List.append_assoc, hnew, hcoming,
      familyOfAll_cons, List.singleton_append]
    exact List.Perm.append_left _ List.perm_middle.symm

/-- Where a task that has not ended is replaced, only what has ended and what is to come have to be looked
at. -/
theorem Sound.replace {coming : List (Job α)} {before after : List (Started α)}
    {task task' : Started α} {ended : List (Nat × Job α)} (h : Sound jobs s)
    (htasks : s.tasks = before ++ task :: after) (hleft : task.left ≠ none)
    (hnumber : task'.number = task.number)
    (hended : ended.Perm
      (((before ++ task' :: after).filter fun task => task.left.isNone).map Started.entry))
    (hfamily : ((before ++ task' :: after).map Started.job
      ++ ((before ++ task' :: after).flatMap Started.ahead ++ familyOfAll coming)).Perm
        (familyOfAll jobs)) :
    Sound jobs { s with coming, tasks := before ++ task' :: after, ended } where
  joined_le := h.joined_le
  taken_le := by
    have hle := h.taken_le
    simpa [htasks] using hle
  finished := by
    have hle := h.joined_le_length htasks hleft
    have hover := h.finished
    rw [htasks, List.take_append_of_le_length hle] at hover
    simpa only [List.take_append_of_le_length hle] using hover
  numbers := by
    have hnumbers := h.numbers
    simpa [htasks, hnumber] using hnumbers
  ended := hended
  family := hfamily

/-- A task that pushes another one leaves it to the caller, so to speak. -/
theorem Sound.hand_over {before after : List (Started α)} {task : Started α} {job : Job α}
    {rest : List (Job α)} (h : Sound jobs s) (htasks : s.tasks = before ++ task :: after)
    (hleft : task.left = some (job :: rest)) :
    Sound jobs
      { s with
        coming := job :: s.coming
        tasks := before ++ { task with left := some rest } :: after } := by
  refine h.replace htasks (by simp [hleft]) rfl ?_ ?_
  · have hended := h.ended
    simpa [htasks, hleft] using hended
  · refine List.Perm.trans ?_ h.family
    have hahead : task.ahead = job.family ++ familyOfAll rest := by
      rw [Started.ahead, hleft]
      rfl
    have hnow : Started.ahead { task with left := some rest } = familyOfAll rest := rfl
    simp only [htasks, List.map_append, List.map_cons, List.flatMap_append, List.flatMap_cons,
      hahead, hnow, familyOfAll, List.append_assoc]
    refine List.Perm.append_left _ (List.Perm.append_left _ (List.Perm.append_left _ ?_))
    have hfront := List.perm_append_comm_assoc (familyOfAll rest ++ after.flatMap Started.ahead)
      job.family (familyOfAll s.coming)
    simpa only [List.append_assoc] using hfront

theorem Sound.finish {before after : List (Started α)} {task : Started α} (h : Sound jobs s)
    (htasks : s.tasks = before ++ task :: after) (hleft : task.left = some []) :
    Sound jobs
      { s with
        tasks := before ++ { task with left := none } :: after
        ended := s.ended ++ [task.entry] } := by
  refine h.replace htasks (by simp [hleft]) rfl ?_ ?_
  · have hended := h.ended
    simp only [htasks, List.filter_append, List.filter_cons, hleft, Option.isNone_some,
      Option.isNone_none, Bool.false_eq_true, if_false, if_true, List.map_append,
      List.map_cons] at hended ⊢
    exact (hended.append_right _).trans
      ((List.perm_append_singleton _ _).trans List.perm_middle.symm)
  · have hfamily := h.family
    simpa [htasks, Started.ahead, hleft] using hfamily

theorem Step.sound (hstep : Step s s') (h : Sound jobs s) : Sound jobs s' := by
  cases hstep with
  | call hcoming => exact h.push hcoming
  | push htasks hleft => exact (h.hand_over htasks hleft).push rfl
  | finish htasks hleft => exact h.finish htasks hleft
  | take hcoming hidle hpending =>
    refine { h with joined_le := ?_, taken_le := Nat.le_refl _ }
    exact Nat.le_trans h.joined_le h.taken_le
  | join hwaits hover =>
    refine { h with joined_le := Nat.le_refl _, finished := fun task htask => ?_ }
    -- what was taken had been joined before, or was waited for
    rw [← List.take_append_drop s.joined (s.tasks.take s.taken), List.mem_append,
      List.take_take, Nat.min_eq_left h.joined_le] at htask
    exact htask.elim (h.finished task) (hover task)

theorem Reaches.sound (hreach : Reaches (start jobs) s) : Sound jobs s := by
  induction hreach with
  | refl => exact sound_start jobs
  | tail _ hstep ih => exact hstep.sound ih

theorem State.IsOver.length_le_joined (hover : s.IsOver) : s.tasks.length ≤ s.joined :=
  hover.joined ▸ List.drop_eq_nil_iff.mp hover.pending

/-- When a queue is over, its tasks are the whole family, and each of them has ended once. -/
theorem Sound.ended_once (h : Sound jobs s) (hover : s.IsOver) :
    s.ended.Perm (s.tasks.map Started.entry)
      ∧ (s.tasks.map Started.job).Perm (familyOfAll jobs) := by
  have hall : ∀ task ∈ s.tasks, task.left = none := by
    have htasks := h.finished
    rwa [List.take_of_length_le hover.length_le_joined] at htasks
  constructor
  · have hended := h.ended
    rwa [List.filter_eq_self.mpr fun task htask => by simp [hall task htask]] at hended
  · have hfamily := h.family
    have hahead : s.tasks.flatMap Started.ahead = [] := by
      refine List.flatMap_eq_nil_iff.mpr fun task htask => ?_
      rw [Started.ahead, hall task htask]
      rfl
    rwa [hahead, hover.coming, familyOfAll, List.append_nil, List.append_nil] at hfamily

/-! ### The length of a schedule -/

/-- What a task contributes to the length of a schedule. -/
def Started.weight (task : Started α) : Nat :=
  4 * task.ahead.length + if task.left.isSome then 1 else 0

/-- What is left of waiting for the tasks that have been taken. -/
def State.waiting (s : State α) : Nat := if s.joined < s.taken then 1 else 0

/-- A bound on the number of steps that a queue has yet to take. -/
def State.weight (s : State α) : Nat :=
  4 * (familyOfAll s.coming).length + (s.tasks.map Started.weight).sum
    + 2 * (s.tasks.length - s.taken) + s.waiting

/-- A task to be pushed outweighs one that has been pushed and may have to be waited for alone. -/
theorem weight_push_lt {coming : List (Job α)} {job : Job α} (hcoming : s.coming = job :: coming) :
    State.weight ({ s with coming }.push job) < s.weight := by
  have hnew : (Started.of (s.tasks.length + 1) job).weight
      = 4 * (familyOfAll job.pushes).length + 1 := rfl
  have hwaiting : State.waiting ({ s with coming }.push job) = s.waiting := rfl
  rw [State.weight, hwaiting]
  simp only [State.weight, State.push, hcoming, familyOfAll_cons, List.length_append,
    List.length_cons, List.map_append, List.map_cons, List.map_nil, List.sum_append, List.sum_cons,
    List.sum_nil, List.length_nil, hnew]
  omega

theorem weight_hand_over {before after : List (Started α)} {task : Started α} {job : Job α}
    {rest : List (Job α)} (htasks : s.tasks = before ++ task :: after)
    (hleft : task.left = some (job :: rest)) :
    State.weight
        { s with
          coming := job :: s.coming
          tasks := before ++ { task with left := some rest } :: after }
      = s.weight := by
  have hold : task.weight = 4 * (job.family ++ familyOfAll rest).length + 1 := by
    rw [Started.weight, Started.ahead, hleft]
    rfl
  have hnow : Started.weight { task with left := some rest } = 4 * (familyOfAll rest).length + 1 := rfl
  simp only [State.weight, State.waiting, htasks, familyOfAll, List.length_append, List.length_cons,
    List.map_append, List.map_cons, List.sum_append, List.sum_cons, hold, hnow]
  omega

theorem Step.weight_lt (h : Step s s') : s'.weight < s.weight := by
  cases h with
  | call hcoming => exact weight_push_lt hcoming
  | @push before after task job rest htasks hleft =>
    let handed : State α :=
      { s with
        coming := job :: s.coming
        tasks := before ++ { task with left := some rest } :: after }
    have hlt := weight_push_lt (s := handed) rfl
    rwa [weight_hand_over htasks hleft] at hlt
  | @finish before after task htasks hleft =>
    have hold : task.weight = 1 := by
      rw [Started.weight, Started.ahead, hleft]
      rfl
    have hnow : Started.weight { task with left := none } = 0 := rfl
    simp only [State.weight, State.waiting, htasks, List.length_append, List.length_cons,
      List.map_append, List.map_cons, List.sum_append, List.sum_cons, hold, hnow]
    omega
  | take hcoming hidle hpending =>
    have hlt : s.taken < s.tasks.length := by
      by_contra hle
      exact hpending (List.drop_eq_nil_of_le (Nat.le_of_not_lt hle))
    simp only [State.weight, State.waiting, hidle, if_pos hlt, Nat.lt_irrefl, if_false]
    omega
  | join hwaits hover =>
    simp only [State.weight, State.waiting, if_pos hwaits, Nat.lt_irrefl, if_false]
    omega

/-- No schedule goes on forever. -/
theorem wellFounded_step : WellFounded fun next s : State α => Step s next :=
  Subrelation.wf Step.weight_lt (InvImage.wf State.weight Nat.lt_wfRel.wf)

/-- A queue that is not over can go on. -/
theorem Sound.exists_step (h : Sound jobs s) (hover : ¬ s.IsOver) : ∃ s', Step s s' := by
  cases hcoming : s.coming with
  | cons job rest => exact ⟨_, .call hcoming⟩
  | nil =>
    rcases Nat.lt_or_ge s.joined s.taken with hwaits | hidle
    · by_cases hbatch : ∀ task ∈ s.batch, task.left = none
      · exact ⟨_, .join hwaits hbatch⟩
      · obtain ⟨task, htask, hleft⟩ : ∃ task ∈ s.batch, task.left ≠ none := by
          simpa only [not_forall, exists_prop] using hbatch
        obtain ⟨before, after, htasks⟩ :=
          List.append_of_mem (List.mem_of_mem_take (List.mem_of_mem_drop htask))
        obtain ⟨pushes, hpushes⟩ := Option.ne_none_iff_exists'.mp hleft
        cases pushes with
        | nil => exact ⟨_, .finish htasks hpushes⟩
        | cons job rest => exact ⟨_, .push htasks hpushes⟩
    · have hjoined : s.joined = s.taken := Nat.le_antisymm h.joined_le hidle
      refine ⟨_, .take hcoming hjoined fun hpending => hover ⟨hcoming, hjoined, hpending⟩⟩

/-! ### Other tasks in place of tasks -/

/-- Tasks are exchanged for others that push what these are exchanged for. -/
def KeepsPushes (f : Job α → Job β) : Prop := ∀ job, (f job).pushes = job.pushes.map f

/-- A task that has been pushed, with another one in its place. -/
def Started.map (f : Job α → Job β) (task : Started α) : Started β :=
  { number := task.number, job := f task.job, left := task.left.map (List.map f) }

/-- A queue with other tasks in the place of its tasks. -/
def State.map (f : Job α → Job β) (s : State α) : State β :=
  { coming := s.coming.map f
    tasks := s.tasks.map (Started.map f)
    taken := s.taken
    joined := s.joined
    ended := s.ended.map (Prod.map id f) }

section Map

variable {f : Job α → Job β}

theorem State.map_push (hf : KeepsPushes f) (s : State α) (job : Job α) :
    (s.push job).map f = (s.map f).push (f job) := by
  simp [State.map, State.push, Started.map, Started.of, hf job]

theorem State.batch_map (f : Job α → Job β) (s : State α) :
    (s.map f).batch = s.batch.map (Started.map f) := by
  simp only [State.batch, State.map, List.map_drop, List.map_take]

theorem State.pending_map (f : Job α → Job β) (s : State α) :
    (s.map f).pending = s.pending.map (Started.map f) := by
  simp only [State.pending, State.map, List.map_drop]

theorem Started.left_map {task : Started α} {left : List (Job α)} (h : task.left = some left) :
    (task.map f).left = some (left.map f) := by
  rw [Started.map, h]
  rfl

theorem State.tasks_map {before after : List (Started α)} {task : Started α}
    (h : s.tasks = before ++ task :: after) :
    (s.map f).tasks
      = before.map (Started.map f) ++ task.map f :: after.map (Started.map f) := by
  simp [State.map, h]

/-- Whatever step is taken, it could have been taken with the other tasks. -/
theorem Step.map (hf : KeepsPushes f) (h : Step s s') : Step (s.map f) (s'.map f) := by
  cases h with
  | @call job rest hcoming =>
    have hmapped : (s.map f).coming = f job :: rest.map f := by simp [State.map, hcoming]
    rw [State.map_push hf]
    exact .call hmapped
  | push htasks hleft =>
    have hstep := Step.push (State.tasks_map htasks) (Started.left_map (f := f) hleft)
    rw [State.map_push hf]
    simpa [State.map, Started.map] using hstep
  | finish htasks hleft =>
    have hstep := Step.finish (State.tasks_map htasks) (Started.left_map (f := f) hleft)
    simpa [State.map, Started.map, Started.entry] using hstep
  | take hcoming hidle hpending =>
    have hstep := Step.take (s := s.map f) (by simp [State.map, hcoming]) hidle
      (by simpa [State.pending_map] using hpending)
    simpa [State.map] using hstep
  | join hwaits hover =>
    refine Step.join (s := s.map f) hwaits fun task htask => ?_
    rw [State.batch_map] at htask
    obtain ⟨task, hmem, rfl⟩ := List.mem_map.mp htask
    rw [Started.map, hover task hmem]
    rfl

/-- A task of the other queue stands in the place of one. -/
theorem exists_of_tasks_map {before' after' : List (Started β)} {task' : Started β}
    (h : (s.map f).tasks = before' ++ task' :: after') :
    ∃ before task after, s.tasks = before ++ task :: after ∧ before.map (Started.map f) = before'
      ∧ task.map f = task' ∧ after.map (Started.map f) = after' := by
  obtain ⟨before, rest, htasks, hbefore, hrest⟩ := List.map_eq_append_iff.mp h
  obtain ⟨task, after, rfl, htask, hafter⟩ := List.map_eq_cons_iff.mp hrest
  exact ⟨before, task, after, htasks, hbefore, htask, hafter⟩

/-- Whatever step is taken with the other tasks, it could have been taken. -/
theorem Step.of_map {t : State β} (hf : KeepsPushes f) (h : Step (s.map f) t) :
    ∃ s', Step s s' ∧ s'.map f = t := by
  cases h with
  | call hcoming =>
    obtain ⟨job, rest, hjobs, rfl, rfl⟩ := List.map_eq_cons_iff.mp hcoming
    exact ⟨_, .call hjobs, State.map_push hf _ _⟩
  | push htasks hleft =>
    obtain ⟨before, task, after, hsplit, rfl, rfl, rfl⟩ := exists_of_tasks_map htasks
    obtain ⟨left, hahead, hpushes⟩ := Option.map_eq_some_iff.mp hleft
    obtain ⟨job, rest, rfl, rfl, rfl⟩ := List.map_eq_cons_iff.mp hpushes
    refine ⟨_, .push hsplit hahead, ?_⟩
    rw [State.map_push hf]
    simp [State.map, Started.map]
  | finish htasks hleft =>
    obtain ⟨before, task, after, hsplit, rfl, rfl, rfl⟩ := exists_of_tasks_map htasks
    obtain ⟨left, hahead, hnone⟩ := Option.map_eq_some_iff.mp hleft
    obtain rfl := List.map_eq_nil_iff.mp hnone
    refine ⟨_, .finish hsplit hahead, ?_⟩
    simp [State.map, Started.map, Started.entry, hahead]
  | take hcoming hidle hpending =>
    refine ⟨_, .take (List.map_eq_nil_iff.mp hcoming) hidle fun hnone => hpending ?_, ?_⟩
    · rw [State.pending_map, hnone, List.map_nil]
    · simp [State.map]
  | join hwaits hover =>
    refine ⟨_, .join hwaits fun task htask => ?_, rfl⟩
    rw [State.batch_map] at hover
    exact Option.map_eq_none_iff.mp (hover _ (List.mem_map_of_mem htask))

theorem Reaches.map (hf : KeepsPushes f) (h : Reaches s s') : Reaches (s.map f) (s'.map f) := by
  induction h with
  | refl => exact .refl
  | tail _ hstep ih => exact ih.tail (hstep.map hf)

/-- With the other tasks a queue gets exactly where it gets anyway, and its tasks do as they do there. -/
theorem reaches_map_iff {t : State β} (hf : KeepsPushes f) :
    Reaches (s.map f) t ↔ ∃ s', Reaches s s' ∧ s'.map f = t := by
  constructor
  · intro h
    induction h with
    | refl => exact ⟨s, .refl, rfl⟩
    | tail _ hstep ih =>
      obtain ⟨s', hreach, rfl⟩ := ih
      obtain ⟨last, hlast, rfl⟩ := hstep.of_map hf
      exact ⟨last, hreach.tail hlast, rfl⟩
  · rintro ⟨s', hreach, rfl⟩
    exact hreach.map hf

end Map

end PackageLint.TaskQueue
