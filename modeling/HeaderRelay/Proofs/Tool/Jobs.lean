import HeaderRelay.Proofs.Wire.Steps
import HeaderRelay.Tool.Job

/-!
# What a job leaves behind

Over a file system with states, a job comes to a result, prints lines and leaves a state. Steps in a
row print one after the other, and the first failure is the last thing that happens.

* `Job.Leaves` — what comes of a job, whatever was printed and reported before it;
* `Leaves.bind`, `Leaves.bind_error` — steps in a row;
* `ask_leaves`, `ofExcept_leaves`, `report_leaves`, `print_leaves` — the steps there are;
* `printHeaders_leaves` — a line for each header, in order.
-/

namespace HeaderRelay
namespace Tool
namespace Job

variable {σ α β : Type}

/-- Started in `s`, the job comes to `result`, prints `lines` behind whatever was printed before and
leaves the files as they are in `s'`. -/
def Leaves (job : Job (StateM σ) α) (s : σ) (result : Except ToolError α) (lines : List String)
    (s' : σ) : Prop :=
  ∀ trail : Trail, ∃ events, (job.run.run trail).run s =
    ((result, { printed := trail.printed ++ lines, events }), s')

theorem Leaves.trace {job : Job (StateM σ) α} {s s' : σ} {result : Except ToolError α}
    {lines : List String} (h : job.Leaves s result lines s') :
    ∃ events, job.trace.run s = ((result, { printed := lines.toArray, events }), s') := by
  rcases h {} with ⟨events, hrun⟩
  have hprinted : (#[] : Array String) ++ lines = lines.toArray := by simp
  exact ⟨events, hprinted ▸ hrun⟩

/-- A job leaves one thing only. -/
theorem Leaves.unique {job : Job (StateM σ) α} {s t t' : σ} {result result' : Except ToolError α}
    {lines lines' : List String} (h : job.Leaves s result lines t)
    (h' : job.Leaves s result' lines' t') : result = result' ∧ lines = lines' ∧ t = t' := by
  rcases h.trace with ⟨events, hrun⟩
  rcases h'.trace with ⟨events', hrun'⟩
  have heq : ((result, Trail.mk lines.toArray events), t) =
      ((result', Trail.mk lines'.toArray events'), t') := hrun.symm.trans hrun'
  simp only [Prod.mk.injEq, Trail.mk.injEq] at heq
  exact ⟨heq.1.1, congrArg Array.toList heq.1.2.1, heq.2⟩

/-! ## Steps in a row -/

section Sequences

variable {job : Job (StateM σ) α} {next : α → Job (StateM σ) β} {s t u : σ}

theorem Leaves.bind {a : α} {result : Except ToolError β} {front back : List String}
    (hjob : job.Leaves s (.ok a) front t) (hnext : (next a).Leaves t result back u) :
    (job >>= next).Leaves s result (front ++ back) u := by
  intro trail
  rcases hjob trail with ⟨events, hfirst⟩
  rcases hnext { printed := trail.printed ++ front, events } with ⟨events', hsecond⟩
  refine ⟨events', ?_⟩
  rw [log_append, ← hsecond]
  simp only [ExceptT.run_bind, StateT.run_bind, hfirst]
  rfl

theorem Leaves.bind_error {e : ToolError} {lines : List String}
    (hjob : job.Leaves s (.error e) lines t) : (job >>= next).Leaves s (.error e) lines t := by
  intro trail
  rcases hjob trail with ⟨events, hfirst⟩
  refine ⟨events, ?_⟩
  simp only [ExceptT.run_bind, StateT.run_bind, hfirst]
  rfl

end Sequences

/-! ## Single steps -/

section Steps

variable (s : σ)

/-- A step that hands on the trail as it got it. -/
theorem leaves_of_run_eq {job : Job (StateM σ) α} {result : Except ToolError α} {t : σ}
    (h : ∀ trail, (job.run.run trail).run s = ((result, trail), t)) :
    job.Leaves s result [] t := by
  intro trail
  refine ⟨trail.events, ?_⟩
  have hprinted : trail.printed ++ ([] : List String) = trail.printed := by simp
  rw [h trail, hprinted]

theorem pure_leaves (a : α) : Leaves (Pure.pure a) s (.ok a) [] s :=
  leaves_of_run_eq s fun _ => rfl

theorem throw_leaves (e : ToolError) : Leaves (throw e : Job (StateM σ) α) s (.error e) [] s :=
  leaves_of_run_eq s fun _ => rfl

theorem ofExcept_leaves {answer result : Except ToolError α} (h : answer = result) :
    Leaves (ofExcept answer) s result [] s := by
  subst h
  cases answer with
  | ok a => exact pure_leaves s a
  | error e => exact throw_leaves s e

theorem ask_leaves {question : StateM σ (Except FileError α)} {answer : Except FileError α} {t : σ}
    (h : question.run s = (answer, t)) :
    Leaves (ask question) s (answer.mapError .file) [] t := by
  apply leaves_of_run_eq
  intro trail
  simp only [ask, ExceptT.run_bind, ExceptT.run_liftM, bind_map_left, StateT.run_bind,
    StateT.run_monadLift, monadLift_self, bind_pure_comp, h]
  cases answer with
  | ok a => rfl
  | error e => rfl

theorem report_leaves (events : List Event) : Leaves (report events) s (.ok ()) [] s := by
  intro trail
  refine ⟨trail.events ++ events, ?_⟩
  have hprinted : trail.printed ++ ([] : List String) = trail.printed := by simp
  rw [hprinted]
  rfl

theorem print_leaves (line : String) : Leaves (print line) s (.ok ()) [line] s := by
  intro trail
  exact ⟨trail.events, rfl⟩

end Steps

theorem Leaves.bind_pure {job : Job (StateM σ) α} {s t : σ} {a : α} {lines : List String}
    (h : job.Leaves s (.ok a) lines t) (f : α → β) :
    Leaves (job >>= fun a => Pure.pure (f a)) s (.ok (f a)) lines t := by
  have hbind : Leaves (job >>= fun a => Pure.pure (f a)) s (.ok (f a)) (lines ++ []) t :=
    h.bind (pure_leaves t (f a))
  rwa [List.append_nil] at hbind

end Job

/-! ## Lines for headers -/

/-- The headers' lines are printed in order, and nothing else happens. -/
theorem printHeaders_leaves {σ : Type} (codec : Codec) (index : Nat) (headers : List BlockHeader)
    (s : σ) :
    Job.Leaves (printHeaders codec index headers) s (.ok ())
      (headers.mapIdx fun position => headerLine codec (index + position)) s := by
  induction headers generalizing index with
  | nil => exact Job.pure_leaves s ()
  | cons header headers ih =>
      -- positions in the rest are one less than in the whole
      have hpositions : (fun position => headerLine codec (index + (position + 1))) =
          fun position => headerLine codec (index + 1 + position) := by
        funext position
        rw [Nat.add_right_comm, Nat.add_assoc]
      rw [printHeaders, List.mapIdx_cons, hpositions]
      exact (Job.print_leaves s (headerLine codec index header)).bind (ih (index + 1))

end Tool
end HeaderRelay
