import GraphPaths.Log
import Mathlib

/-!
# What work comes to

The outcome of work does not depend on the records that were there before it, and the work only adds
to them. `Job.Yields` says both of a job and an outcome, and holds of the steps that jobs are made
of (`Yields.bind` for one step after another), so that the outcome of a long job is that of the same
computation without a log. `Job.FailsOnly` says with which errors and after which records work can
fail, `Job.RecordsOnly` what it records, and `Meets` what all results and all errors of steps are
like.
-/

namespace GraphPaths

namespace Job

variable {ε δ α β : Type}

/-- The job comes to `x` and adds some records, whatever was recorded before. -/
def Yields (job : Job ε α) (x : Except ε α) : Prop :=
  ∃ added, ∀ records, job records = (x, records ++ added)

theorem yields_pure (a : α) : (pure a : Job ε α).Yields (.ok a) :=
  ⟨[], fun records => by rw [List.append_nil]; rfl⟩

theorem yields_throw (e : ε) : (throw e : Job ε α).Yields (.error e) :=
  ⟨[], fun records => by rw [List.append_nil]; rfl⟩

theorem yields_log (level : LogLevel) (message : String) :
    (log level message : Job ε Unit).Yields (.ok ()) :=
  ⟨[⟨level, message⟩], fun _ => rfl⟩

theorem yields_ofExcept (x : Except ε α) : (ofExcept x).Yields x :=
  ⟨[], fun records => by rw [List.append_nil]; rfl⟩

/-- A step after one that came to a result goes on with its records. -/
theorem bind_of_ok {job : Job ε α} (next : α → Job ε β) {records rs : List LogRecord} {a : α}
    (h : job records = (.ok a, rs)) : (job >>= next) records = next a rs := by
  show (ExceptT.bindCont next (job records).1) (job records).2 = _
  rw [h]
  rfl

/-- A step after one that failed is not made. -/
theorem bind_of_error {job : Job ε α} (next : α → Job ε β) {records rs : List LogRecord} {e : ε}
    (h : job records = (.error e, rs)) : (job >>= next) records = (.error e, rs) := by
  show (ExceptT.bindCont next (job records).1) (job records).2 = _
  rw [h]
  rfl

/-- Work that came to a result needs no help. -/
theorem tryCatch_of_ok {job : Job ε α} (handler : ε → Job ε α) {records rs : List LogRecord}
    {a : α} (h : job records = (.ok a, rs)) : tryCatch job handler records = (.ok a, rs) := by
  show ExceptT.tryCatch (fun _ => job records) handler records = _
  rw [h]
  rfl

/-- Work that failed goes on with what is done about the error. -/
theorem tryCatch_of_error {job : Job ε α} (handler : ε → Job ε α) {records rs : List LogRecord}
    {e : ε} (h : job records = (.error e, rs)) :
    tryCatch job handler records = handler e rs := by
  show ExceptT.tryCatch (fun _ => job records) handler records = _
  rw [h]
  rfl

/-- One step after another comes to what the outcomes give one after another. -/
theorem Yields.bind {job : Job ε α} {x : Except ε α} {next : α → Job ε β}
    {y : α → Except ε β} (h : job.Yields x) (hn : ∀ a, x = .ok a → (next a).Yields (y a)) :
    (job >>= next).Yields (x >>= y) := by
  obtain ⟨added, hj⟩ := h
  cases x with
  | error e => exact ⟨added, fun records => bind_of_error next (hj records)⟩
  | ok a =>
    obtain ⟨more, hm⟩ := hn a rfl
    refine ⟨added ++ more, fun records => ?_⟩
    rw [bind_of_ok next (hj records), hm, List.append_assoc]
    rfl

/-- A step whose result does not matter. -/
theorem Yields.then {job : Job ε Unit} {next : Job ε β} {y : Except ε β}
    (h : job.Yields (.ok ())) (hn : next.Yields y) : (job >>= fun _ => next).Yields y :=
  h.bind (y := fun _ => y) fun _ _ => hn

theorem Yields.mapError {job : Job ε α} {x : Except ε α} (f : ε → δ) (h : job.Yields x) :
    (job.mapError f).Yields (x.mapError f) := by
  obtain ⟨added, hj⟩ := h
  refine ⟨added, fun records => ?_⟩
  unfold Job.mapError
  rw [hj]
  cases x <;> rfl

/-- The outcome does not depend on what was recorded before. -/
theorem Yields.fst_eq {job : Job ε α} {x : Except ε α} (h : job.Yields x)
    (records : List LogRecord) : (job records).1 = x := by
  obtain ⟨added, hj⟩ := h
  rw [hj]

theorem Yields.run_fst {job : Job ε α} {x : Except ε α} (h : job.Yields x) : job.run.1 = x :=
  h.fst_eq []

/-! ## How work can fail -/

/-- If the job fails, its error and all records so far are as `P` says. -/
def FailsOnly (job : Job ε α) (P : ε → List LogRecord → Prop) : Prop :=
  ∀ records e rs, job records = (.error e, rs) → P e rs

section

variable {P : ε → List LogRecord → Prop}

theorem failsOnly_pure (a : α) : (pure a : Job ε α).FailsOnly P :=
  fun _ _ _ h => nomatch congrArg Prod.fst h

theorem failsOnly_log (level : LogLevel) (message : String) :
    (log level message : Job ε Unit).FailsOnly P :=
  fun _ _ _ h => nomatch congrArg Prod.fst h

/-- Work whose outcome is known fails as the outcome does. -/
theorem Yields.failsOnly {job : Job ε α} {x : Except ε α} (h : job.Yields x)
    (hx : ∀ e, x = .error e → ∀ rs, P e rs) : job.FailsOnly P := by
  obtain ⟨added, hj⟩ := h
  intro records e rs he
  rw [hj] at he
  exact hx e (congrArg Prod.fst he) rs

theorem failsOnly_ofExcept {x : Except ε α} (hx : ∀ e, x = .error e → ∀ rs, P e rs) :
    (ofExcept x).FailsOnly P :=
  (yields_ofExcept x).failsOnly hx

/-- Two steps fail as one of them does. -/
theorem FailsOnly.bind {job : Job ε α} {next : α → Job ε β} (h : job.FailsOnly P)
    (hn : ∀ a records rs, job records = (.ok a, rs) → (next a).FailsOnly P) :
    (job >>= next).FailsOnly P := by
  intro records e rs he
  cases hj : job records with
  | mk x mid =>
    cases x with
    | error e' =>
      rw [bind_of_error next hj] at he
      obtain ⟨heq, rfl⟩ := Prod.mk.inj he
      exact Except.error.inj heq ▸ h records e' mid hj
    | ok a =>
      rw [bind_of_ok next hj] at he
      exact hn a records mid hj mid e rs he

theorem FailsOnly.mapError {job : Job δ α} {f : δ → ε} (h : job.FailsOnly fun e => P (f e)) :
    (job.mapError f).FailsOnly P := by
  intro records e rs he
  unfold Job.mapError at he
  cases hj : job records with
  | mk x mid =>
    rw [hj] at he
    cases x with
    | error e' =>
      obtain ⟨heq, rfl⟩ := Prod.mk.inj he
      exact Except.error.inj heq ▸ h records e' mid hj
    | ok a => exact nomatch congrArg Prod.fst he

/-- Work over a list fails as it does for one of the members. -/
theorem failsOnly_forIn {f : α → β → Job ε (ForInStep β)} (hf : ∀ x b, (f x b).FailsOnly P) :
    ∀ (xs : List α) (b : β), (forIn xs b f).FailsOnly P
  | [], b => failsOnly_pure b
  | x :: xs, b => by
    rw [List.forIn_cons]
    refine (hf x b).bind fun step _ _ _ => ?_
    cases step with
    | done b => exact failsOnly_pure b
    | yield b => exact failsOnly_forIn hf xs b

end

/-- Two steps come to a result if the first does, and the second with its result. -/
theorem bind_eq_run_ok {job : Job ε α} {next : α → Job ε β} {b : β} {records rs : List LogRecord}
    (h : (job >>= next) records = (.ok b, rs)) :
    ∃ a mid, job records = (.ok a, mid) ∧ next a mid = (.ok b, rs) := by
  cases hj : job records with
  | mk x mid =>
    cases x with
    | error e =>
      rw [bind_of_error next hj] at h
      exact nomatch congrArg Prod.fst h
    | ok a => exact ⟨a, mid, rfl, by rw [← bind_of_ok next hj, h]⟩

theorem ofExcept_eq_ok {x : Except ε α} {a : α} {records rs : List LogRecord}
    (h : ofExcept x records = (.ok a, rs)) : x = .ok a :=
  congrArg Prod.fst h

/-! ## What work records -/

/-- All records that the job adds are as `P` says, whatever it comes to. -/
def RecordsOnly (job : Job ε α) (P : LogRecord → Prop) : Prop :=
  ∀ records, ∃ added, (job records).2 = records ++ added ∧ ∀ r ∈ added, P r

section

variable {P : LogRecord → Prop}

theorem recordsOnly_of_none {job : Job ε α} (h : ∀ records, (job records).2 = records) :
    job.RecordsOnly P :=
  fun records => ⟨[], by rw [h, List.append_nil], List.forall_mem_nil P⟩

theorem recordsOnly_pure (a : α) : (pure a : Job ε α).RecordsOnly P :=
  recordsOnly_of_none fun _ => rfl

theorem recordsOnly_throw (e : ε) : (throw e : Job ε α).RecordsOnly P :=
  recordsOnly_of_none fun _ => rfl

theorem recordsOnly_ofExcept (x : Except ε α) : (ofExcept x).RecordsOnly P :=
  recordsOnly_of_none fun _ => rfl

theorem recordsOnly_log {level : LogLevel} {message : String} (h : P ⟨level, message⟩) :
    (log level message : Job ε Unit).RecordsOnly P :=
  fun _ => ⟨[⟨level, message⟩], rfl, List.forall_mem_singleton.mpr h⟩

/-- Two steps record what each of them does. -/
theorem RecordsOnly.bind {job : Job ε α} {next : α → Job ε β} (h : job.RecordsOnly P)
    (hn : ∀ a, (next a).RecordsOnly P) : (job >>= next).RecordsOnly P := by
  intro records
  obtain ⟨added, hadded, hP⟩ := h records
  cases hj : job records with
  | mk x mid =>
    rw [hj] at hadded
    obtain rfl : mid = records ++ added := hadded
    cases x with
    | error e => exact ⟨added, by rw [bind_of_error next hj], hP⟩
    | ok a =>
      obtain ⟨more, hmore, hP'⟩ := hn a (records ++ added)
      exact ⟨added ++ more, by rw [bind_of_ok next hj, hmore, List.append_assoc],
        List.forall_mem_append.mpr ⟨hP, hP'⟩⟩

theorem RecordsOnly.mapError {job : Job ε α} (f : ε → δ) (h : job.RecordsOnly P) :
    (job.mapError f).RecordsOnly P := by
  intro records
  obtain ⟨added, hadded, hP⟩ := h records
  refine ⟨added, ?_, hP⟩
  rw [← hadded]
  unfold Job.mapError
  cases job records with
  | mk x mid => cases x <;> rfl

end

end Job

/-! ## Results of steps -/

section Except

variable {ε δ α β : Type} {b : β}

/-- A step after another succeeds with what it makes of the result of the first. -/
theorem bind_eq_ok {x : Except ε α} {f : α → Except ε β} :
    (x >>= f) = .ok b ↔ ∃ a, x = .ok a ∧ f a = .ok b := by
  cases x with
  | error e => exact ⟨nofun, nofun⟩
  | ok a => exact ⟨fun h => ⟨a, rfl, h⟩, fun ⟨_, ha, h⟩ => Except.ok.inj ha ▸ h⟩

theorem map_eq_ok {x : Except ε α} {f : α → β} : x.map f = .ok b ↔ ∃ a, x = .ok a ∧ f a = b := by
  cases x with
  | error e => exact ⟨nofun, nofun⟩
  | ok a => exact ⟨fun h => ⟨a, rfl, Except.ok.inj h⟩, fun ⟨_, ha, h⟩ => Except.ok.inj ha ▸ h ▸ rfl⟩

theorem mapError_eq_ok {x : Except ε β} {f : ε → δ} : x.mapError f = .ok b ↔ x = .ok b := by
  cases x with
  | error e => exact ⟨nofun, nofun⟩
  | ok a => exact ⟨fun h => congrArg _ (Except.ok.inj h), fun h => congrArg _ (Except.ok.inj h)⟩

theorem toOption_eq_some {x : Except ε β} : x.toOption = some b ↔ x = .ok b := by
  cases x with
  | error e => exact ⟨nofun, nofun⟩
  | ok a => exact ⟨fun h => congrArg _ (Option.some.inj h), fun h => congrArg _ (Except.ok.inj h)⟩

/-- Two steps can be made if the first can and the second can whatever the first gives. -/
theorem exists_bind_iff {x : Except ε α} {f : α → Except ε β} {P : Prop}
    (hf : ∀ a, (∃ b, f a = .ok b) ↔ P) :
    (∃ b, (x >>= f) = .ok b) ↔ (∃ a, x = .ok a) ∧ P := by
  simp only [bind_eq_ok]
  constructor
  · rintro ⟨b, a, ha, hb⟩
    exact ⟨⟨a, ha⟩, (hf a).mp ⟨b, hb⟩⟩
  · rintro ⟨⟨a, ha⟩, hP⟩
    obtain ⟨b, hb⟩ := (hf a).mpr hP
    exact ⟨b, a, ha, hb⟩

/-- Two steps that can be made whatever is given. -/
theorem exists_bind {x : Except ε α} {f : α → Except ε β} (hx : ∃ a, x = .ok a)
    (hf : ∀ a, ∃ b, f a = .ok b) : ∃ b, (x >>= f) = .ok b :=
  (exists_bind_iff fun a => iff_true_intro (hf a)).mpr ⟨hx, trivial⟩

/-- A last step that gives a result can always be made. -/
theorem exists_pure_iff {a : α} : (∃ b, (pure a : Except ε α) = .ok b) ↔ True :=
  iff_true_intro ⟨a, rfl⟩

/-- Two steps fail if the first does, or the second on its result. -/
theorem bind_eq_error {x : Except ε α} {f : α → Except ε β} {e : ε} :
    (x >>= f) = .error e ↔ x = .error e ∨ ∃ a, x = .ok a ∧ f a = .error e := by
  cases x with
  | error e' =>
    exact ⟨fun h => .inl (Except.error.inj h ▸ rfl), fun h =>
      Except.error.inj (h.resolve_right nofun) ▸ rfl⟩
  | ok a =>
    exact ⟨fun h => .inr ⟨a, rfl, h⟩, fun h => by
      obtain ⟨a', ha, h⟩ := h.resolve_left nofun
      exact Except.ok.inj ha ▸ h⟩

theorem mapError_eq_error {x : Except ε β} {f : ε → δ} {e : δ} :
    x.mapError f = .error e ↔ ∃ e', x = .error e' ∧ f e' = e := by
  cases x with
  | error e' =>
    exact ⟨fun h => ⟨e', rfl, Except.error.inj h⟩, fun ⟨_, he, h⟩ => Except.error.inj he ▸ h ▸ rfl⟩
  | ok a => exact ⟨nofun, nofun⟩

end Except

/-! ## Work over a list -/

/-- Work done for all members of a list was done for each. -/
theorem forall₂_of_mapM {ε α β : Type} {f : α → Except ε β} :
    ∀ {xs : List α} {ys : List β}, xs.mapM f = .ok ys →
      List.Forall₂ (fun x y => f x = .ok y) xs ys
  | [], ys, h => by
    rw [List.mapM_nil] at h
    obtain rfl : [] = ys := Except.ok.inj h
    exact .nil
  | x :: xs, ys, h => by
    rw [List.mapM_cons] at h
    obtain ⟨y, hy, h⟩ := bind_eq_ok.mp h
    obtain ⟨rest, hrest, h⟩ := bind_eq_ok.mp h
    obtain rfl : y :: rest = ys := Except.ok.inj h
    exact .cons hy (forall₂_of_mapM hrest)

/-- Work that can be done for each member of a list can be done for all. -/
theorem mapM_of_forall₂ {ε α β : Type} {f : α → Except ε β} {xs : List α} {ys : List β}
    (h : List.Forall₂ (fun x y => f x = .ok y) xs ys) : xs.mapM f = .ok ys := by
  induction h with
  | nil => rfl
  | cons hx _ ih =>
    rw [List.mapM_cons, hx, ih]
    rfl

/-- Work over a list that fails does so for one of the members. -/
theorem exists_of_mapM_error {ε α β : Type} {f : α → Except ε β} {e : ε} :
    ∀ {xs : List α}, xs.mapM f = .error e → ∃ x ∈ xs, f x = .error e
  | [], h => nomatch h
  | x :: xs, h => by
    rw [List.mapM_cons] at h
    rcases bind_eq_error.mp h with h | ⟨y, -, h⟩
    · exact ⟨x, List.mem_cons_self, h⟩
    · have hrest := (bind_eq_error.mp h).resolve_right fun ⟨_, _, h⟩ => nomatch h
      obtain ⟨x', hx', h⟩ := exists_of_mapM_error hrest
      exact ⟨x', List.mem_cons_of_mem x hx', h⟩

theorem exists_mapM_ok {ε α β : Type} {f : α → Except ε β} :
    ∀ {xs : List α}, (∀ x ∈ xs, ∃ y, f x = .ok y) → ∃ ys, xs.mapM f = .ok ys
  | [], _ => ⟨[], rfl⟩
  | x :: xs, h => by
    obtain ⟨y, hy⟩ := h x List.mem_cons_self
    obtain ⟨ys, hys⟩ := exists_mapM_ok fun x' hx' => h x' (List.mem_cons_of_mem x hx')
    exact ⟨y :: ys, by rw [List.mapM_cons, hy, hys]; rfl⟩

/-- A member of one list goes with a member of the other. -/
theorem exists_of_forall₂ {α β : Type} {R : α → β → Prop} {xs : List α} {ys : List β} {y : β}
    (h : List.Forall₂ R xs ys) (hy : y ∈ ys) : ∃ x ∈ xs, R x y := by
  induction h with
  | nil => contradiction
  | @cons x _ _ _ hr _ ih =>
    rcases List.mem_cons.mp hy with rfl | hy
    · exact ⟨x, List.mem_cons_self, hr⟩
    · obtain ⟨x', hx', hr'⟩ := ih hy
      exact ⟨x', List.mem_cons_of_mem _ hx', hr'⟩

theorem exists_right_of_forall₂ {α β : Type} {R : α → β → Prop} {xs : List α} {ys : List β}
    {x : α} (h : List.Forall₂ R xs ys) (hx : x ∈ xs) : ∃ y ∈ ys, R x y := by
  obtain ⟨y, hy, hr⟩ := exists_of_forall₂ h.flip hx
  exact ⟨y, hy, hr⟩

/-- Results of the same items are the same, in whatever order. -/
theorem exists_mapM_of_mem_iff {ε α β : Type} {f : α → Except ε β} {xs xs' : List α} {ys : List β}
    (hmem : ∀ x, x ∈ xs ↔ x ∈ xs') (h : xs.mapM f = .ok ys) :
    ∃ ys', xs'.mapM f = .ok ys' ∧ ∀ y, y ∈ ys ↔ y ∈ ys' := by
  have hys := forall₂_of_mapM h
  have hall : ∀ x ∈ xs', ∃ y, f x = .ok y := by
    intro x hx
    obtain ⟨y, -, hy⟩ := exists_right_of_forall₂ hys ((hmem x).mpr hx)
    exact ⟨y, hy⟩
  obtain ⟨ys', h'⟩ := exists_mapM_ok hall
  have hys' := forall₂_of_mapM h'
  refine ⟨ys', h', fun y => ⟨fun hy => ?_, fun hy => ?_⟩⟩
  · obtain ⟨x, hx, hxy⟩ := exists_of_forall₂ hys hy
    obtain ⟨y', hy', hxy'⟩ := exists_right_of_forall₂ hys' ((hmem x).mp hx)
    exact Except.ok.inj (hxy.symm.trans hxy') ▸ hy'
  · obtain ⟨x, hx, hxy⟩ := exists_of_forall₂ hys' hy
    obtain ⟨y', hy', hxy'⟩ := exists_right_of_forall₂ hys ((hmem x).mpr hx)
    exact Except.ok.inj (hxy.symm.trans hxy') ▸ hy'

/-! ## What results and errors are like -/

section Meets

variable {ε δ α β : Type} {P : α → Prop} {Q : β → Prop} {E : ε → Prop} {x : Except ε α}

/-- A result is as `P` says, and an error as `E` says. -/
structure Meets (x : Except ε α) (P : α → Prop) (E : ε → Prop) : Prop where
  of_ok : ∀ {a}, x = .ok a → P a
  of_error : ∀ {e}, x = .error e → E e

theorem meets_pure {a : α} (h : P a) : Meets (pure a : Except ε α) P E :=
  ⟨fun ha => Except.ok.inj ha ▸ h, nofun⟩

theorem meets_throw {e : ε} (h : E e) : Meets (throw e : Except ε α) P E :=
  ⟨nofun, fun he => Except.error.inj he ▸ h⟩

/-- Two steps meet what the second meets on all that the first may give. -/
theorem Meets.bind {f : α → Except ε β} (h : Meets x P E) (hf : ∀ a, P a → Meets (f a) Q E) :
    Meets (x >>= f) Q E := by
  cases x with
  | ok a => exact hf a (h.of_ok rfl)
  | error e => exact meets_throw (h.of_error rfl)

theorem Meets.map {f : α → β} (h : Meets x P E) (hf : ∀ a, P a → Q (f a)) :
    Meets (x.map f) Q E := by
  cases x with
  | ok a => exact meets_pure (hf a (h.of_ok rfl))
  | error e => exact meets_throw (h.of_error rfl)

theorem Meets.mapError {D : δ → Prop} {f : ε → δ} (h : Meets x P E) (hf : ∀ e, E e → D (f e)) :
    Meets (x.mapError f) P D := by
  cases x with
  | ok a => exact meets_pure (h.of_ok rfl)
  | error e => exact meets_throw (hf e (h.of_error rfl))

/-- What is met is met in a weaker form. -/
theorem Meets.mono {P' : α → Prop} {E' : ε → Prop} (h : Meets x P E) (hP : ∀ a, P a → P' a)
    (hE : ∀ e, E e → E' e) : Meets x P' E' :=
  ⟨fun ha => hP _ (h.of_ok ha), fun he => hE _ (h.of_error he)⟩

/-- Work over a list meets what it meets for each member. -/
theorem meets_mapM {f : α → Except ε β} :
    ∀ {xs : List α}, (∀ x ∈ xs, Meets (f x) Q E) → Meets (xs.mapM f) (fun ys => ∀ y ∈ ys, Q y) E
  | [], _ => meets_pure (List.forall_mem_nil Q)
  | x :: xs, h => by
    rw [List.mapM_cons]
    refine (h x List.mem_cons_self).bind fun y hy => ?_
    refine (meets_mapM fun x' hx' => h x' (List.mem_cons_of_mem x hx')).bind fun ys hys => ?_
    exact meets_pure (List.forall_mem_cons.mpr ⟨hy, hys⟩)

end Meets

end GraphPaths
