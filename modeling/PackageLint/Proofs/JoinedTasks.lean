import PackageLint.Proofs.QueueSchedules

/-!
# Waiting for all tasks

To wait for a queue in rounds, each of which runs the pending tasks to their ends in turn, is one schedule
among many. The rounds are bounded by the number of tasks that are still to be run, which every round makes
smaller. Hence the bound is never met before nothing is pending, and what holds at the end of every
schedule holds of the result: all tasks have been run, and each of them once.

That some of them fail makes no difference to the others. Had they ended with a value instead, every
schedule would be the same up to the values in the place of the failures.

## Main definitions

* `TaskQueue.State.queue` — what a schedule has made of a queue so far
* `TaskQueue.Job.mend` — a task that ends with a value where it would fail, and so do those it leads to

## Main results

* `TaskQueue.reaches_round` — a round is a part of a schedule
* `TaskQueue.sizeOfAll_pushes` — what each round takes from what is still to be run
* `TaskQueue.reaches_wait` — to wait in rounds is a schedule
* `TaskQueue.wait_joins_and_isolates` — every schedule runs every task once, whether others fail or not
-/

namespace PackageLint.TaskQueue

variable {α : Type} {s : State α} {name : String}

/-! ### The order of rounds -/

/-- Tasks when they are pushed in turn, given the number of those that have been pushed before. -/
def startAll (count : Nat) : List (Job α) → List (Started α)
  | [] => []
  | job :: rest => .of (count + 1) job :: startAll (count + 1) rest

/-- A task that has ended. -/
def Started.finished (task : Started α) : Started α := { task with left := none }

/-- Whether a task has just been pushed. -/
def Started.IsFresh (task : Started α) : Prop := task.left = some task.job.pushes

theorem length_startAll (count : Nat) (jobs : List (Job α)) :
    (startAll count jobs).length = jobs.length := by
  induction jobs generalizing count with
  | nil => rfl
  | cons job rest ih => simp only [startAll, List.length_cons, ih]

theorem startAll_append (count : Nat) (a b : List (Job α)) :
    startAll count (a ++ b) = startAll count a ++ startAll (count + a.length) b := by
  induction a generalizing count with
  | nil => rfl
  | cons job a ih =>
    simp only [List.cons_append, startAll, ih, List.length_cons, Nat.add_assoc, Nat.add_comm 1]

theorem map_job_startAll (count : Nat) (jobs : List (Job α)) :
    (startAll count jobs).map Started.job = jobs := by
  induction jobs generalizing count with
  | nil => rfl
  | cons job rest ih => simp only [startAll, List.map_cons, ih, Started.of]

theorem isFresh_of_mem_startAll {count : Nat} {jobs : List (Job α)} {task : Started α}
    (h : task ∈ startAll count jobs) : task.IsFresh := by
  induction jobs generalizing count with
  | nil => simp [startAll] at h
  | cons job rest ih =>
    rcases List.mem_cons.mp h with rfl | h
    · rfl
    · exact ih h

theorem reaches_calls (jobs : List (Job α)) (hcoming : s.coming = jobs) :
    Reaches s { s with coming := [], tasks := s.tasks ++ startAll s.tasks.length jobs } := by
  induction jobs generalizing s with
  | nil =>
    have hsame : s = { s with coming := [], tasks := s.tasks ++ startAll s.tasks.length [] } := by
      rw [startAll, List.append_nil, ← hcoming]
    rw [← hsame]
  | cons job rest ih =>
    have hrest := ih (s := { s with coming := rest }.push job) rfl
    refine .head (.call hcoming) ?_
    simpa [State.push, startAll] using hrest

/-- A task may push what it has yet to push before any other step. -/
theorem reaches_pushes {before after : List (Started α)} {task : Started α} (jobs : List (Job α))
    (htasks : s.tasks = before ++ task :: after) (hleft : task.left = some jobs) :
    Reaches s
      { s with
        tasks := before ++ { task with left := some [] } :: (after ++ startAll s.tasks.length jobs) } := by
  induction jobs generalizing s after task with
  | nil =>
    have hsame : s
        = { s with
            tasks := before ++ { task with left := some [] } :: (after ++ startAll s.tasks.length []) } := by
      rw [startAll, List.append_nil, ← hleft, ← htasks]
    rw [← hsame]
  | cons job rest ih =>
    refine .head (.push htasks hleft) ?_
    let pushing : Started α := { task with left := some rest }
    let next : State α := { s with tasks := before ++ pushing :: after }.push job
    have hnext : next.tasks = before ++ pushing :: (after ++ [.of (s.tasks.length + 1) job]) := by
      simp [next, State.push, htasks]
    have hrest := ih hnext rfl
    simpa [next, pushing, State.push, startAll, htasks, Nat.add_assoc] using hrest

theorem reaches_task {before after : List (Started α)} {task : Started α}
    (htasks : s.tasks = before ++ task :: after) (hfresh : task.IsFresh) :
    Reaches s
      { s with
        tasks := before ++ task.finished :: (after ++ startAll s.tasks.length task.job.pushes)
        ended := s.ended ++ [task.entry] } := by
  have hpushes := reaches_pushes _ htasks hfresh
  exact hpushes.tail (@Step.finish α _ before _ { task with left := some [] } rfl rfl)

/-- Tasks that have just been pushed may be run to their ends in turn. -/
theorem reaches_batch {before news : List (Started α)} (batch : List (Started α))
    (htasks : s.tasks = before ++ (batch ++ news)) (hfresh : ∀ task ∈ batch, task.IsFresh) :
    Reaches s
      { s with
        tasks := before ++ (batch.map Started.finished
          ++ (news ++ startAll s.tasks.length (batch.flatMap fun task => task.job.pushes)))
        ended := s.ended ++ batch.map Started.entry } := by
  induction batch generalizing s before news with
  | nil =>
    have hsame : s = { s with tasks := before ++ ([] ++ (news ++ [])), ended := s.ended ++ [] } := by
      rw [List.append_nil, List.append_nil, ← htasks]
    exact hsame ▸ .refl
  | cons task rest ih =>
    obtain ⟨hfirst, hothers⟩ := List.forall_mem_cons.mp hfresh
    have hsplit : s.tasks = before ++ task :: (rest ++ news) := htasks
    refine (reaches_task hsplit hfirst).trans ?_
    let pushed := startAll s.tasks.length task.job.pushes
    let next : State α :=
      { s with
        tasks := before ++ task.finished :: ((rest ++ news) ++ pushed)
        ended := s.ended ++ [task.entry] }
    have hnext : next.tasks = (before ++ [task.finished]) ++ (rest ++ (news ++ pushed)) := by
      simp [next]
    have hlength : next.tasks.length = s.tasks.length + task.job.pushes.length := by
      simp only [next, pushed, hsplit, List.length_append, List.length_cons, length_startAll]
      omega
    have hrest := ih hnext hothers
    rw [hlength] at hrest
    simpa only [next, pushed, List.map_cons, List.flatMap_cons, startAll_append, List.append_assoc,
      List.cons_append, List.nil_append] using hrest

/-! ### One round -/

/-- Whether the caller has pushed everything and nothing is being waited for, while no task that is pending
has begun. -/
structure State.IsIdle (s : State α) : Prop where
  coming : s.coming = []
  joined : s.joined = s.taken
  taken_le : s.taken ≤ s.tasks.length
  fresh : ∀ task ∈ s.pending, task.IsFresh

/-- What the pending tasks push. -/
def State.pushed (s : State α) : List (Job α) := s.pending.flatMap fun task => task.job.pushes

/-- A queue after a round. -/
def State.round (s : State α) : State α :=
  { s with
    tasks := s.tasks.take s.taken
      ++ (s.pending.map Started.finished ++ startAll s.tasks.length s.pushed)
    taken := s.tasks.length
    joined := s.tasks.length
    ended := s.ended ++ s.pending.map Started.entry }

theorem State.length_taken (h : s.taken ≤ s.tasks.length) :
    (s.tasks.take s.taken).length = s.taken := by
  rw [List.length_take, Nat.min_eq_left h]

theorem State.length_ended (h : s.taken ≤ s.tasks.length) :
    (s.tasks.take s.taken ++ s.pending.map Started.finished).length = s.tasks.length := by
  rw [List.length_append, List.length_map, length_taken h, State.pending, List.length_drop]
  omega

theorem State.pending_round (h : s.taken ≤ s.tasks.length) :
    s.round.pending = startAll s.tasks.length s.pushed := by
  rw [State.round, State.pending, ← List.append_assoc]
  exact List.drop_left' (length_ended h)

theorem State.IsIdle.round (h : s.IsIdle) : s.round.IsIdle where
  coming := h.coming
  joined := rfl
  taken_le := by
    have hlength := State.length_ended h.taken_le
    rw [State.round, ← List.append_assoc, List.length_append, hlength]
    exact Nat.le_add_right _ _
  fresh := by
    rw [State.pending_round h.taken_le]
    exact fun task => isFresh_of_mem_startAll

/-- A round is a part of a schedule. -/
theorem reaches_round (h : s.IsIdle) (hpending : s.pending ≠ []) : Reaches s s.round := by
  have hlt : s.taken < s.tasks.length := by
    by_contra hle
    exact hpending (List.drop_eq_nil_of_le (Nat.le_of_not_lt hle))
  have hsplit : s.tasks = s.tasks.take s.taken ++ (s.pending ++ []) := by
    rw [List.append_nil, State.pending, List.take_append_drop]
  refine .head (.take h.coming h.joined hpending) ?_
  have hbatch := reaches_batch (s := { s with taken := s.tasks.length }) s.pending hsplit h.fresh
  refine hbatch.tail (Step.join (h.joined ▸ hlt) fun task htask => ?_)
  -- those that are waited for are the ones that were pending
  have hlength := State.length_ended (Nat.le_of_lt hlt)
  have hbefore := State.length_taken (Nat.le_of_lt hlt)
  rw [State.batch, List.nil_append, ← List.append_assoc, ← hlength, List.take_left, h.joined,
    List.drop_left' hbefore] at htask
  obtain ⟨task, -, rfl⟩ := List.mem_map.mp htask
  rfl

/-! ### What rounds make of a queue -/

/-- The value with which a task ends. -/
def value? (entry : Nat × Job α) : Option α :=
  match entry.2.result with
  | .ok value => some value
  | .error _ => none

/-- A task with its name. -/
def Started.named (name : String) (task : Started α) : String × Job α :=
  (taskName name task.job.label task.number, task.job)

/-- The name of a task that fails, and its failure. -/
def Started.failure? (name : String) (task : Started α) : Option (String × Failure) :=
  match task.job.result with
  | .ok _ => none
  | .error failure => some (taskName name task.job.label task.number, failure)

/-- The failures that have been logged. Those of tasks that are waited for together are logged when the last
of these tasks has ended, in the order of their pushes. -/
def State.failures (name : String) (s : State α) : List (String × Failure) :=
  (s.tasks.take s.joined).filterMap (Started.failure? name)

/-- What a schedule has made of a queue so far. -/
def State.queue (name : String) (s : State α) : TaskQueue α :=
  { name
    count := s.tasks.length
    pending := s.pending.map (Started.named name)
    values := s.ended.filterMap value?
    failures := s.failures name }

theorem pushAll_eq (queue : TaskQueue α) (jobs : List (Job α)) :
    queue.pushAll jobs
      = { queue with
          count := queue.count + jobs.length
          pending := queue.pending ++ (startAll queue.count jobs).map (Started.named queue.name) } := by
  induction jobs generalizing queue with
  | nil => simp [pushAll, startAll]
  | cons job rest ih =>
    have hpush : queue.pushAll (job :: rest) = (queue.push job).pushAll rest := rfl
    rw [hpush, ih]
    simp [push, startAll, Started.named, Started.of, Nat.add_assoc, Nat.add_comm 1]

theorem runOne_eq (queue : TaskQueue α) (task : Started α) :
    queue.runOne (task.named queue.name)
      = { queue.pushAll task.job.pushes with
          values := queue.values ++ [task.entry].filterMap value?
          failures := queue.failures ++ [task].filterMap (Started.failure? queue.name) } := by
  simp only [runOne, pushAll_eq]
  cases h : task.job.result <;> simp [Started.named, Started.entry, value?, Started.failure?, h]

theorem foldl_runOne (queue : TaskQueue α) (batch : List (Started α)) :
    (batch.map (Started.named queue.name)).foldl runOne queue
      = { queue.pushAll (batch.flatMap fun task => task.job.pushes) with
          values := queue.values ++ (batch.map Started.entry).filterMap value?
          failures := queue.failures ++ batch.filterMap (Started.failure? queue.name) } := by
  induction batch generalizing queue with
  | nil => simp [pushAll]
  | cons task rest ih =>
    have hname : (queue.runOne (task.named queue.name)).name = queue.name := by
      rw [runOne_eq, pushAll_eq]
    have hrest := ih (queue.runOne (task.named queue.name))
    rw [hname] at hrest
    rw [List.map_cons, List.foldl_cons, hrest, runOne_eq]
    have hentries : (task :: rest).map Started.entry = [task.entry] ++ rest.map Started.entry := rfl
    have htasks : task :: rest = [task] ++ rest := rfl
    simp only [pushAll_eq, hentries, List.flatMap_cons, List.length_append, startAll_append,
      List.map_append, List.filterMap_append, List.append_assoc, Nat.add_assoc]
    rw [htasks, List.filterMap_append]

theorem State.failures_round (h : s.IsIdle) :
    s.round.failures name = s.failures name ++ s.pending.filterMap (Started.failure? name) := by
  have hover : (s.pending.map Started.finished).filterMap (Started.failure? name)
      = s.pending.filterMap (Started.failure? name) := by
    rw [List.filterMap_map]
    rfl
  rw [State.failures, State.round, ← List.append_assoc, ← State.length_ended h.taken_le, List.take_left,
    List.filterMap_append, hover, State.failures, h.joined]

theorem queue_round (h : s.IsIdle) : (s.queue name).round = s.round.queue name := by
  have hlength : s.round.tasks.length = s.tasks.length + s.pushed.length := by
    rw [State.round, ← List.append_assoc, List.length_append, State.length_ended h.taken_le,
      length_startAll]
  have hround := foldl_runOne { s.queue name with pending := [] } s.pending
  rw [TaskQueue.round]
  refine hround.trans ?_
  rw [pushAll_eq, State.queue, State.queue, hlength, State.pending_round h.taken_le,
    State.failures_round h]
  simp [State.round, State.pushed]

/-! ### All rounds -/

theorem sizeOfAll_append (a b : List (Job α)) : sizeOfAll (a ++ b) = sizeOfAll a + sizeOfAll b := by
  induction a with
  | nil => simp [sizeOfAll]
  | cons job a ih => simp only [List.cons_append, sizeOfAll, ih, Nat.add_assoc]

/-- Every task that is run is one less to be run. -/
theorem sizeOfAll_pushes (jobs : List (Job α)) :
    sizeOfAll (jobs.flatMap Job.pushes) + jobs.length = sizeOfAll jobs := by
  induction jobs with
  | nil => rfl
  | cons job jobs ih =>
    have hjob : job.size = 1 + sizeOfAll job.pushes := by
      cases job
      rfl
    rw [List.flatMap_cons, sizeOfAll_append, sizeOfAll, hjob, List.length_cons]
    omega

theorem State.sizeOfAll_pushed (s : State α) :
    sizeOfAll s.pushed + s.pending.length = sizeOfAll (s.pending.map Started.job) := by
  have hpushed : s.pushed = (s.pending.map Started.job).flatMap Job.pushes := by
    rw [State.pushed, List.flatMap_map]
  rw [hpushed, ← List.length_map Started.job, sizeOfAll_pushes]

/-- Rounds are a schedule, which is over when there are as many of them as tasks. -/
theorem reaches_rounds {bound : Nat} (h : s.IsIdle)
    (hbound : sizeOfAll (s.pending.map Started.job) ≤ bound) :
    ∃ last, Reaches s last ∧ last.IsOver ∧ last.queue name = rounds bound (s.queue name) := by
  have hsize := s.sizeOfAll_pushed
  induction bound generalizing s with
  | zero =>
    have hpending : s.pending = [] := List.eq_nil_of_length_eq_zero (by omega)
    exact ⟨s, .refl, ⟨h.coming, h.joined, hpending⟩, rfl⟩
  | succ bound ih =>
    by_cases hpending : s.pending = []
    · refine ⟨s, .refl, ⟨h.coming, h.joined, hpending⟩, ?_⟩
      rw [rounds, if_pos (by simp [State.queue, hpending])]
    · have hlength := List.length_pos_iff.mpr hpending
      have hnext : sizeOfAll (s.round.pending.map Started.job) ≤ bound := by
        rw [State.pending_round h.taken_le, map_job_startAll]
        omega
      obtain ⟨last, hlast, hover, hqueue⟩ := ih h.round hnext s.round.sizeOfAll_pushed
      refine ⟨last, .trans (reaches_round h hpending) hlast, hover, ?_⟩
      rw [hqueue, ← queue_round h, rounds, if_neg (by simp [State.queue, hpending])]

/-- To push tasks and then to wait in rounds is a schedule that is over. -/
theorem reaches_wait (name : String) (jobs : List (Job α)) :
    ∃ last, Reaches (start jobs) last ∧ last.IsOver
      ∧ last.queue name = (pushAll { name } jobs).wait := by
  let first : State α := { coming := [], tasks := startAll 0 jobs }
  have hfirst : Reaches (start jobs) first := reaches_calls jobs rfl
  have hidle : first.IsIdle :=
    { coming := rfl
      joined := rfl
      taken_le := Nat.zero_le _
      fresh := fun task => isFresh_of_mem_startAll }
  have hqueue : first.queue name = pushAll { name } jobs := by
    rw [pushAll_eq]
    simp [State.queue, State.pending, State.failures, first, length_startAll]
  obtain ⟨last, hlast, hover, hrounds⟩ := reaches_rounds hidle (Nat.le_refl _)
  refine ⟨last, hfirst.trans hlast, hover, ?_⟩
  rw [hrounds, wait, ← hqueue]
  congr 2
  simp [State.queue, Started.named, Function.comp_def]

/-! ### Tasks that fail -/

/-- The end of a task that ends with a value where it would fail. -/
def mendedResult (ending : Failure → α) : Except Failure α → Except Failure α
  | .ok value => .ok value
  | .error failure => .ok (ending failure)

mutual

/-- A task that ends with a value where it would fail, and so do those that it leads to. -/
def Job.mend (ending : Failure → α) : Job α → Job α
  | .mk label pushes result => .mk label (mendAll ending pushes) (mendedResult ending result)

/-- Tasks that end with a value where they would fail, and so do those that they lead to. -/
def mendAll (ending : Failure → α) : List (Job α) → List (Job α)
  | [] => []
  | job :: rest => job.mend ending :: mendAll ending rest

end

theorem mendAll_eq_map (ending : Failure → α) (jobs : List (Job α)) :
    mendAll ending jobs = jobs.map (Job.mend ending) := by
  induction jobs with
  | nil => rfl
  | cons job rest ih => rw [mendAll, ih, List.map_cons]

theorem keepsPushes_mend (ending : Failure → α) : KeepsPushes (Job.mend ending) := by
  rintro ⟨label, pushes, result⟩
  exact mendAll_eq_map ending pushes

/-- A task that does not fail is exchanged for one of the same label and value. -/
theorem Job.mend_of_ok (ending : Failure → α) {job : Job α} {value : α} (h : job.result = .ok value) :
    (job.mend ending).label = job.label ∧ (job.mend ending).result = .ok value := by
  obtain ⟨label, pushes, result⟩ := job
  obtain rfl : result = .ok value := h
  exact ⟨rfl, rfl⟩

/-- To push tasks and to wait for them is a schedule after which nothing is pending. No schedule goes on
forever, and one can go on until it is over. Then nothing is pending, what has been pushed is the whole
family, every task that has been pushed, as told by its number, has ended once, and every failure has been
logged. If the tasks that fail ended with some value instead, the schedules would be the same, and so
would be in each of them the numbers of all tasks, what they have pushed, the order in which they have
ended, and what the others do. -/
theorem wait_joins_and_isolates (name : String) (jobs : List (Job α)) :
    (∃ last, Reaches (start jobs) last ∧ last.IsOver
        ∧ last.queue name = (pushAll { name } jobs).wait)
      ∧ (pushAll { name } jobs).wait.pending = []
      ∧ (∀ s, Reaches (start jobs) s →
          Acc (fun next s => Step s next) s
            ∧ (¬ s.IsOver → ∃ s', Step s s')
            ∧ (s.IsOver → s.pending = []
                ∧ (s.tasks.map Started.job).Perm (familyOfAll jobs)
                ∧ s.tasks.map Started.number = List.range' 1 s.tasks.length
                ∧ s.ended.Perm (s.tasks.map Started.entry)
                ∧ s.failures name = s.tasks.filterMap (Started.failure? name)))
      ∧ ∀ ending : Failure → α,
          (∀ t, Reaches (start (jobs.map (Job.mend ending))) t
            ↔ ∃ s, Reaches (start jobs) s ∧ s.map (Job.mend ending) = t)
          ∧ ∀ (job : Job α) (value : α), job.result = .ok value →
              (job.mend ending).label = job.label ∧ (job.mend ending).result = .ok value := by
  obtain ⟨last, hlast, hover, hqueue⟩ := reaches_wait name jobs
  refine ⟨⟨last, hlast, hover, hqueue⟩, ?_, fun s hs => ?_, fun ending => ⟨fun t => ?_, ?_⟩⟩
  · rw [← hqueue, State.queue, hover.pending, List.map_nil]
  · refine ⟨wellFounded_step.apply s, hs.sound.exists_step, fun hover => ?_⟩
    obtain ⟨hended, hfamily⟩ := hs.sound.ended_once hover
    refine ⟨hover.pending, hfamily, hs.sound.numbers, hended, ?_⟩
    rw [State.failures, List.take_of_length_le (hover.length_le_joined)]
  · exact reaches_map_iff (s := start jobs) (keepsPushes_mend ending)
  · exact fun job value => Job.mend_of_ok ending

-- what a task has pushed before it fails is run
example :
    (pushAll { name := "lint" }
      [.mk none [.mk (some "child") [] (.ok 2)] (.error (.other "boom")), .mk none [] (.ok 1)]).wait.values
      = [1, 2] := by
  rfl

end PackageLint.TaskQueue
