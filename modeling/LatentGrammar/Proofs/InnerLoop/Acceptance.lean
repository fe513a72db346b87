import Mathlib
import LatentGrammar.Proofs.Exact
import LatentGrammar.Training.InnerLoop

namespace LatentGrammar.Training.InnerLoop

variable {α μ σ ε : Type}

/-- Any two of the values compare, and consistently so, as floats do unless one is not a number. -/
structure Comparable [LE α] (number : α → Prop) : Prop where
  total : ∀ {x y}, number x → number y → x ≤ y ∨ y ≤ x
  trans : ∀ {x y z}, number x → number y → number z → x ≤ y → y ≤ z → x ≤ z

theorem Comparable.refl [LE α] {number : α → Prop} (comparable : Comparable number) {x : α}
    (isNumber : number x) : x ≤ x :=
  (comparable.total isNumber isNumber).elim id id

/-- What an improver makes of a model as long as it is called: model and likelihood of every
iteration, and the worlds that the calls leave behind. -/
structure Course (improver : Improver (StateT σ (Except ε)) μ α) (start : μ) (world : σ) where
  model : Nat → μ
  likelihood : Nat → α
  /-- The world before an iteration. -/
  before : Nat → σ
  /-- The world in an iteration, after the model has been scored. -/
  within : Nat → σ
  model_zero : model 0 = start
  before_zero : before 0 = world
  scores : ∀ n, (improver.likelihood (model n)).run (before n) = .ok (likelihood n, within n)
  improves : ∀ n, (improver.improve (model n)).run (within n) = .ok (model (n + 1), before (n + 1))

/-- A call of an improver. -/
inductive Call (μ : Type) where
  | likelihood (model : μ)
  | improve (model : μ)
  deriving Repr, DecidableEq

/-- An improver that writes down its calls in the world. -/
def Improver.recorded (improver : Improver (StateT σ (Except ε)) μ α) :
    Improver (StateT (σ × List (Call μ)) (Except ε)) μ α where
  likelihood model := fun (world, calls) => do
    let (value, world) ← (improver.likelihood model).run world
    return (value, world, calls ++ [.likelihood model])
  improve model := fun (world, calls) => do
    let (next, world) ← (improver.improve model).run world
    return (next, world, calls ++ [.improve model])

/-- The calls of the first `n` iterations: every model is scored once, and then improved once. -/
def callsBefore (model : Nat → μ) (n : Nat) : List (Call μ) :=
  (List.range n).flatMap fun k => [.likelihood (model k), .improve (model k)]

theorem callsBefore_succ (model : Nat → μ) (n : Nat) :
    callsBefore model (n + 1) =
      callsBefore model n ++ [.likelihood (model n)] ++ [.improve (model n)] := by
  simp [callsBefore, List.range_succ]

namespace Course

variable {improver : Improver (StateT σ (Except ε)) μ α} {start : μ} {world : σ}

/-- A recorded improver takes the same course, with its calls in the worlds. -/
def recorded (course : Course improver start world) :
    Course improver.recorded start (world, []) where
  model := course.model
  likelihood := course.likelihood
  before n := (course.before n, callsBefore course.model n)
  within n := (course.within n, callsBefore course.model n ++ [.likelihood (course.model n)])
  model_zero := course.model_zero
  before_zero := by rw [course.before_zero]; rfl
  scores n := by
    simp only [Improver.recorded, StateT.run]
    rw [show improver.likelihood (course.model n) (course.before n) = _ from course.scores n]
    rfl
  improves n := by
    simp only [Improver.recorded, StateT.run]
    rw [show improver.improve (course.model n) (course.within n) = _ from course.improves n,
      callsBefore_succ]
    rfl

end Course

variable [Scalar α] (limits : Limits) (initial : α) (likelihood : Nat → α)

/-- The model of the iteration with number `k` is accepted: all are below the least number of
iterations; after that, those which no model since the last one of these surpasses. Without a least
number of iterations, the likelihood to start with must not surpass it either. -/
def Accepted (k : Nat) : Prop :=
  k < limits.min ∨ (limits.min = 0 → initial ≤ likelihood k) ∧
    ∀ j < k, limits.min - 1 ≤ j → likelihood j ≤ likelihood k

instance : DecidablePred (Accepted limits initial likelihood) := fun k =>
  inferInstanceAs (Decidable (k < limits.min ∨ (limits.min = 0 → initial ≤ likelihood k) ∧
    ∀ j < k, limits.min - 1 ≤ j → likelihood j ≤ likelihood k))

/-- The last accepted one of the first `n` iterations. -/
def lastAccepted? : Nat → Option Nat
  | 0 => none
  | n + 1 => if Accepted limits initial likelihood n then some n else lastAccepted? n

/-- Of the first `n` iterations, the number of those since the last accepted one. -/
def idle (n : Nat) : Nat :=
  match lastAccepted? limits initial likelihood n with
  | none => n
  | some k => n - 1 - k

/-- Why a loop stops after `n` iterations, if it does; of several reasons the first one counts. -/
def reason? (n : Nat) : Option Ending :=
  if limits.singlePass then some .singlePass
  else if limits.patience ≤ idle limits initial likelihood n ∧ limits.min ≤ n then some .patience
  else if limits.max ≤ n then some .maxIterations
  else none

/-- The loop has a reason to stop after `n` iterations, and had none before. -/
structure StopsAfter (n : Nat) (reason : Ending) : Prop where
  positive : 1 ≤ n
  stops : reason? limits initial likelihood n = some reason
  goesOn : ∀ m, 1 ≤ m → m < n → reason? limits initial likelihood m = none

/-- Of the numbers from `first` on and below `n`, the last one with the greatest likelihood. -/
structure LastMaximum (first n k : Nat) : Prop where
  from_first : first ≤ k
  below : k < n
  greatest : ∀ j, first ≤ j → j < n → likelihood j ≤ likelihood k
  last : ∀ j, k < j → j < n → ¬likelihood k ≤ likelihood j

/-- What is known of the last accepted one of `n` iterations. -/
def Leads (n : Nat) : Option Nat → Prop
  | none => (0 < limits.min → n = 0) ∧ ∀ j < n, ¬initial ≤ likelihood j
  | some k => k < n ∧ (n ≤ limits.min → k + 1 = n) ∧ (limits.min = 0 → initial ≤ likelihood k) ∧
      (limits.min ≤ n → LastMaximum likelihood (limits.min - 1) n k)

variable {limits initial likelihood} {number : α → Prop} {n : Nat}

/-- The rule of the loop, which looks at the likelihood of the best model so far, is the acceptance
rule. -/
theorem Leads.accepts_iff (comparable : Comparable number) (isNumber : number initial)
    (areNumbers : ∀ n, number (likelihood n)) {leader : Option Nat}
    (leads : Leads limits initial likelihood n leader) :
    n < limits.min ∨ leader.elim initial likelihood ≤ likelihood n ↔
      Accepted limits initial likelihood n := by
  by_cases early : n < limits.min
  · exact iff_of_true (.inl early) (.inl early)
  unfold Accepted
  simp only [early, false_or]
  cases leader with
  | none =>
    obtain ⟨unforced, worse⟩ := leads
    constructor
    · refine fun better => ⟨fun _ => better, fun j earlier _ => ?_⟩
      have below := (comparable.total isNumber (areNumbers j)).resolve_left (worse j earlier)
      exact comparable.trans (areNumbers j) isNumber (areNumbers n) below better
    · rintro ⟨atLeast, -⟩
      by_cases free : limits.min = 0
      · exact atLeast free
      · have zero := unforced (Nat.pos_of_ne_zero free)
        omega
  | some k =>
    obtain ⟨earlier, -, atLeast, maximum⟩ := leads
    obtain ⟨inside, -, greatest, -⟩ := maximum (Nat.le_of_not_lt early)
    constructor
    · refine fun better => ⟨fun free => ?_, fun j below from_ => ?_⟩
      · exact comparable.trans isNumber (areNumbers k) (areNumbers n) (atLeast free) better
      · exact comparable.trans (areNumbers j) (areNumbers k) (areNumbers n)
          (greatest j from_ below) better
    · rintro ⟨-, all⟩
      exact all k earlier inside

theorem Leads.step (comparable : Comparable number) (isNumber : number initial)
    (areNumbers : ∀ n, number (likelihood n)) {leader : Option Nat}
    (leads : Leads limits initial likelihood n leader) :
    Leads limits initial likelihood (n + 1)
      (if Accepted limits initial likelihood n then some n else leader) := by
  have accepts := leads.accepts_iff comparable isNumber areNumbers
  by_cases accepted : Accepted limits initial likelihood n
  · rw [if_pos accepted]
    refine ⟨n.lt_succ_self, fun _ => rfl, fun free => ?_, fun _ => ?_⟩
    · exact (accepted.resolve_left (by omega)).1 free
    · refine ⟨by omega, n.lt_succ_self, fun j from_ below => ?_, fun j above below => by omega⟩
      rcases Nat.lt_succ_iff_lt_or_eq.mp below with earlier | rfl
      · exact (accepted.resolve_left (by omega)).2 j earlier from_
      · exact comparable.refl (areNumbers j)
  · rw [if_neg accepted]
    have rejected := mt accepts.mp accepted
    obtain ⟨late, worse⟩ := not_or.mp rejected
    cases leader with
    | none =>
      obtain ⟨unforced, all⟩ := leads
      refine ⟨fun forced => ?_, fun j below => ?_⟩
      · have zero := unforced forced
        omega
      · rcases Nat.lt_succ_iff_lt_or_eq.mp below with earlier | rfl
        · exact all j earlier
        · exact worse
    | some k =>
      obtain ⟨earlier, -, atLeast, maximum⟩ := leads
      obtain ⟨inside, -, greatest, last⟩ := maximum (Nat.le_of_not_lt late)
      have lower := (comparable.total (areNumbers k) (areNumbers n)).resolve_left worse
      refine ⟨by omega, fun early => by omega, atLeast, fun _ => ⟨inside, by omega, ?_, ?_⟩⟩
      · intro j from_ below
        rcases Nat.lt_succ_iff_lt_or_eq.mp below with before | rfl
        · exact greatest j from_ before
        · exact lower
      · intro j above below
        rcases Nat.lt_succ_iff_lt_or_eq.mp below with before | rfl
        · exact last j above before
        · exact worse

theorem leads_lastAccepted? (comparable : Comparable number) (isNumber : number initial)
    (areNumbers : ∀ n, number (likelihood n)) (n : Nat) :
    Leads limits initial likelihood n (lastAccepted? limits initial likelihood n) := by
  induction n with
  | zero => exact ⟨fun _ => rfl, fun j below => absurd below j.not_lt_zero⟩
  | succ n ih => exact ih.step comparable isNumber areNumbers

theorem idle_succ (n : Nat) :
    idle limits initial likelihood (n + 1) =
      if Accepted limits initial likelihood n then 0
      else idle limits initial likelihood n + 1 := by
  have below {n k : Nat} (found : lastAccepted? limits initial likelihood n = some k) : k < n := by
    induction n with
    | zero => cases found
    | succ n ih =>
      unfold lastAccepted? at found
      split at found
      · obtain rfl := Option.some.inj found
        exact n.lt_succ_self
      · exact Nat.lt_succ_of_lt (ih found)
  by_cases accepted : Accepted limits initial likelihood n
  · simp [idle, lastAccepted?, accepted]
  · simp only [idle, lastAccepted?, if_neg accepted]
    cases found : lastAccepted? limits initial likelihood n with
    | none => rfl
    | some k =>
      have := below found
      show n + 1 - 1 - k = n - 1 - k + 1
      omega

namespace Course

variable {improver : Improver (StateT σ (Except ε)) μ α} {start : μ} {world : σ}
  (course : Course improver start world)

/-- The state of the loop after `n` iterations. -/
def progress (limits : Limits) (initial : α) (n : Nat) : Progress μ α where
  best := (lastAccepted? limits initial course.likelihood n).elim start course.model
  bestLikelihood := (lastAccepted? limits initial course.likelihood n).elim initial course.likelihood
  latest := course.model n
  dropping := idle limits initial course.likelihood n
  completed := n
  seen := ((List.range n).map course.likelihood).reverse

theorem result_progress (n : Nat) (reason : Ending) :
    (course.progress limits initial n).result reason =
      { best := (lastAccepted? limits initial course.likelihood n).elim start course.model
        bestLikelihood :=
          (lastAccepted? limits initial course.likelihood n).elim initial course.likelihood
        candidate := course.model n
        iterations := n
        stop := reason
        history := (List.range n).map course.likelihood } := by
  simp [progress, Progress.result]

theorem progress_zero : course.progress limits initial 0 = .start start initial := by
  simp [progress, Progress.start, lastAccepted?, idle, course.model_zero]

theorem advance_progress (comparable : Comparable number) (isNumber : number initial)
    (areNumbers : ∀ n, number (course.likelihood n)) (n : Nat) :
    (course.progress limits initial n).advance limits (course.likelihood n)
        (course.model (n + 1)) =
      course.progress limits initial (n + 1) := by
  have leads : Leads limits initial course.likelihood n _ :=
    leads_lastAccepted? comparable isNumber areNumbers n
  have taken : (decide ((course.progress limits initial n).completed < limits.min) ||
      decide ((course.progress limits initial n).bestLikelihood ≤ course.likelihood n)) = true ↔
        Accepted limits initial course.likelihood n := by
    rw [Bool.or_eq_true, decide_eq_true_iff, decide_eq_true_iff]
    exact leads.accepts_iff comparable isNumber areNumbers
  have seen : course.likelihood n :: (course.progress limits initial n).seen =
      (course.progress limits initial (n + 1)).seen := by
    simp [progress, List.range_succ]
  unfold Progress.advance
  rw [seen]
  by_cases accepted : Accepted limits initial course.likelihood n
  · rw [if_pos (taken.mpr accepted)]
    simp [progress, idle_succ, lastAccepted?, accepted]
  · rw [if_neg (mt taken.mp accepted)]
    simp [progress, idle_succ, lastAccepted?, accepted]

theorem stop?_progress (limits : Limits) (initial : α) (n : Nat) :
    ((course.progress limits initial n).stop? limits).or
        (if limits.max ≤ n then some .maxIterations else none) =
      reason? limits initial course.likelihood n := by
  have waited : (decide (limits.patience ≤ (course.progress limits initial n).dropping) &&
      decide (limits.min ≤ (course.progress limits initial n).completed)) = true ↔
        limits.patience ≤ idle limits initial course.likelihood n ∧ limits.min ≤ n := by
    rw [Bool.and_eq_true, decide_eq_true_iff, decide_eq_true_iff]
    rfl
  unfold Progress.stop? reason?
  split
  · rfl
  · by_cases long : limits.patience ≤ idle limits initial course.likelihood n ∧ limits.min ≤ n
    · rw [if_pos (waited.mpr long), if_pos long]
      rfl
    · rw [if_neg (mt waited.mp long), if_neg long]
      rfl

theorem iterate_progress (comparable : Comparable number) (isNumber : number initial)
    (areNumbers : ∀ n, number (course.likelihood n)) (more n : Nat) :
    (iterate improver limits more (course.progress limits initial n)).run (course.before n) =
      match (course.progress limits initial (n + 1)).stop? limits with
      | some reason =>
        .ok ((course.progress limits initial (n + 1)).result reason, course.before (n + 1))
      | none =>
        match more with
        | 0 => .ok ((course.progress limits initial (n + 1)).result .maxIterations,
            course.before (n + 1))
        | more + 1 =>
          (iterate improver limits more (course.progress limits initial (n + 1))).run
            (course.before (n + 1)) := by
  rw [iterate.eq_def]
  simp only [StateT.run_bind]
  rw [show (course.progress limits initial n).latest = course.model n from rfl, course.scores n]
  simp only [bind, Except.bind]
  rw [course.improves n]
  simp only [course.advance_progress comparable isNumber areNumbers n]
  cases (course.progress limits initial (n + 1)).stop? limits with
  | some reason => rfl
  | none => cases more <;> rfl

/-- The loop stops as soon as it has a reason to, which it has at the latest when it has run out of
iterations. -/
theorem iterate_stops (comparable : Comparable number) (isNumber : number initial)
    (areNumbers : ∀ n, number (course.likelihood n)) (limits : Limits) (more n : Nat)
    (left : limits.max - 1 = n + more)
    (goesOn : ∀ m, 1 ≤ m → m < n + 1 → reason? limits initial course.likelihood m = none) :
    ∃ last reason, StopsAfter limits initial course.likelihood last reason ∧
      (iterate improver limits more (course.progress limits initial n)).run (course.before n) =
        .ok ((course.progress limits initial last).result reason, course.before last) := by
  induction more generalizing n with
  | zero =>
    have exhausted : limits.max ≤ n + 1 := by omega
    have decided := course.stop?_progress limits initial (n + 1)
    rw [if_pos exhausted] at decided
    rw [course.iterate_progress comparable isNumber areNumbers]
    cases stopped : (course.progress limits initial (n + 1)).stop? limits with
    | some reason =>
      rw [stopped] at decided
      exact ⟨n + 1, reason, ⟨Nat.le_add_left 1 n, decided.symm, goesOn⟩, rfl⟩
    | none =>
      rw [stopped] at decided
      exact ⟨n + 1, .maxIterations, ⟨Nat.le_add_left 1 n, decided.symm, goesOn⟩, rfl⟩
  | succ more ih =>
    have remaining : ¬limits.max ≤ n + 1 := by omega
    have decided := course.stop?_progress limits initial (n + 1)
    rw [if_neg remaining, Option.or_none] at decided
    rw [course.iterate_progress comparable isNumber areNumbers]
    cases stopped : (course.progress limits initial (n + 1)).stop? limits with
    | some reason =>
      rw [stopped] at decided
      exact ⟨n + 1, reason, ⟨Nat.le_add_left 1 n, decided.symm, goesOn⟩, rfl⟩
    | none =>
      rw [stopped] at decided
      refine ih (n + 1) (by omega) fun m positive below => ?_
      rcases Nat.lt_succ_iff_lt_or_eq.mp below with before | rfl
      · exact goesOn m positive before
      · exact decided.symm

theorem run_stops (comparable : Comparable number) (isNumber : number initial)
    (areNumbers : ∀ n, number (course.likelihood n)) (limits : Limits) :
    ∃ last reason, StopsAfter limits initial course.likelihood last reason ∧
      (run improver start initial limits).run world =
        .ok ((course.progress limits initial last).result reason, course.before last) := by
  have stops := course.iterate_stops comparable isNumber areNumbers limits
    (limits.max - 1) 0 (Nat.zero_add _).symm fun m positive below => by omega
  rwa [course.progress_zero, course.before_zero] at stops

end Course

theorem StopsAfter.unique {other : Nat} {reason again : Ending}
    (stops : StopsAfter limits initial likelihood n reason)
    (stopsToo : StopsAfter limits initial likelihood other again) :
    other = n ∧ again = reason := by
  obtain sooner | rfl | later := Nat.lt_trichotomy other n
  · have absent := stops.goesOn other stopsToo.positive sooner
    rw [stopsToo.stops] at absent
    cases absent
  · exact ⟨rfl, Option.some.inj (stopsToo.stops.symm.trans stops.stops)⟩
  · have absent := stopsToo.goesOn n stops.positive later
    rw [stops.stops] at absent
    cases absent

theorem LastMaximum.unique {first k other : Nat} (maximum : LastMaximum likelihood first n k)
    (again : LastMaximum likelihood first n other) : other = k := by
  obtain sooner | rfl | later := Nat.lt_trichotomy other k
  · exact absurd (maximum.greatest other again.from_first again.below)
      (again.last k sooner maximum.below)
  · rfl
  · exact absurd (again.greatest k maximum.from_first maximum.below)
      (maximum.last other later again.below)

variable (limits initial likelihood n) in
/-- Which of the first `n` models is the best, or none if it is the one to start with. The loop has
to take a model in each of the least number of iterations; after that it chooses among the last one
of these and all later ones. Without a least number it chooses among all models, and only if one of
them is as likely as the loop was told of the first one. -/
inductive Chosen : Option Nat → Prop where
  | newest (forced : 1 ≤ limits.min) (early : n ≤ limits.min) : Chosen (some (n - 1))
  | best (forced : 1 ≤ limits.min) (late : limits.min < n) {k : Nat}
      (maximum : LastMaximum likelihood (limits.min - 1) n k) : Chosen (some k)
  | improved (free : limits.min = 0) {k : Nat} (maximum : LastMaximum likelihood 0 n k)
      (better : initial ≤ likelihood k) : Chosen (some k)
  | unchanged (free : limits.min = 0) (worse : ∀ k < n, ¬initial ≤ likelihood k) : Chosen none

/-- The last accepted model is the chosen one. -/
theorem Leads.chosen {leader : Option Nat} (leads : Leads limits initial likelihood n leader)
    (some : 1 ≤ n) : Chosen limits initial likelihood n leader := by
  cases leader with
  | none =>
    obtain ⟨unforced, worse⟩ := leads
    by_cases free : limits.min = 0
    · exact .unchanged free worse
    · have none := unforced (Nat.pos_of_ne_zero free)
      omega
  | some k =>
    obtain ⟨-, newest, better, maximum⟩ := leads
    by_cases free : limits.min = 0
    · have all := maximum (by omega)
      rw [free] at all
      exact .improved free all (better free)
    · by_cases early : n ≤ limits.min
      · obtain rfl : k = n - 1 := by
          have := newest early
          omega
        exact .newest (by omega) early
      · exact .best (by omega) (by omega) (maximum (by omega))

/-- What an inner loop returns whose calls succeed. It stops after the first iteration after which
it has a reason to; up to there it has scored and improved every model once, one after the other.
It returns the chosen one of the models it has scored with its likelihood, the next one that it has
not scored, and the likelihoods of all iterations. -/
theorem Course.run_returns_choice {improver : Improver (StateT σ (Except ε)) μ α} {start : μ}
    {world : σ} (course : Course improver start world) (comparable : Comparable number)
    (initial : α) (isNumber : number initial) (areNumbers : ∀ n, number (course.likelihood n))
    (limits : Limits) :
    ∃ n reason choice, StopsAfter limits initial course.likelihood n reason ∧
      Chosen limits initial course.likelihood n choice ∧
      let result : Result μ α :=
        { best := choice.elim start course.model
          bestLikelihood := choice.elim initial course.likelihood
          candidate := course.model n
          iterations := n
          stop := reason
          history := (List.range n).map course.likelihood }
      (run improver start initial limits).run world = .ok (result, course.before n) ∧
        (run improver.recorded start initial limits).run (world, []) =
          .ok (result, course.before n, callsBefore course.model n) := by
  obtain ⟨n, reason, stops, returns⟩ := course.run_stops comparable isNumber areNumbers limits
  obtain ⟨other, again, stopsToo, recorded⟩ :=
    course.recorded.run_stops comparable isNumber areNumbers limits
  obtain ⟨rfl, rfl⟩ := stops.unique stopsToo
  have leads : Leads limits initial course.likelihood other _ :=
    leads_lastAccepted? comparable isNumber areNumbers other
  refine ⟨other, again, _, stops, leads.chosen stops.positive, ?_, ?_⟩
  · rw [returns, course.result_progress]
  · rw [recorded, course.recorded.result_progress]
    rfl

/-- Models are numbered, and every model leads to the next one; those without a likelihood in the
list are very unlikely. -/
def scripted (likelihoods : List Rat) : Improver (StateT Unit (Except Unit)) Nat Rat where
  likelihood model := pure ((likelihoods[model]?).getD (-100))
  improve model := pure (model + 1)

def scriptedCourse (likelihoods : List Rat) : Course (scripted likelihoods) 0 () where
  model n := n
  likelihood n := (likelihoods[n]?).getD (-100)
  before _ := ()
  within _ := ()
  model_zero := rfl
  before_zero := rfl
  scores _ := rfl
  improves _ := rfl

def sampleLimits : Limits := ⟨1, 9, 2, false⟩

/-- The last one of two equally likely models is the best; two less likely ones end the loop. -/
theorem scripted_returns_choice :
    ∃ result, (run (scripted [-5, -3, -3, -4]) 0 (-1) sampleLimits).run () = .ok (result, ()) ∧
      result.best = 2 ∧ result.bestLikelihood = -3 ∧ result.candidate = 5 ∧
      result.iterations = 5 ∧ result.stop = .patience := by
  have comparable : Comparable fun _ : Rat => True :=
    ⟨fun {x y} _ _ => le_total x y, fun _ _ _ => le_trans⟩
  let course := scriptedCourse [-5, -3, -3, -4]
  obtain ⟨n, reason, choice, stops, chosen, returns, -⟩ :=
    course.run_returns_choice comparable (-1) trivial (fun _ => trivial) sampleLimits
  have here : StopsAfter sampleLimits (-1) course.likelihood 5 .patience :=
    ⟨by decide, by decide +kernel, by decide +kernel⟩
  have maximum : LastMaximum course.likelihood 0 5 2 :=
    ⟨by decide, by decide, by decide +kernel, fun j above below => by
      obtain rfl | rfl : j = 3 ∨ j = 4 := by omega
      all_goals decide +kernel⟩
  obtain ⟨rfl, rfl⟩ := here.unique stops
  cases chosen with
  | newest _ early => exact absurd early (by decide)
  | best _ _ again =>
    obtain rfl := maximum.unique again
    exact ⟨_, returns, rfl, rfl, rfl, rfl, rfl⟩
  | improved free => exact absurd free (by decide)
  | unchanged free => exact absurd free (by decide)

end LatentGrammar.Training.InnerLoop
