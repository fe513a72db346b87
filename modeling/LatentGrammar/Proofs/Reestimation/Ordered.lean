import LatentGrammar.Proofs.Consistency.Passes

namespace LatentGrammar

variable {α : Type}

namespace Production

variable {first second third : Production}

theorem before_trans (left : first.before second) (right : second.before third) :
    first.before third := by
  cases first <;> cases second <;> cases third <;> simp [before] at * <;> omega

theorem before_total (different : first ≠ second) (not : ¬first.before second) :
    second.before first := by
  cases first <;> cases second <;> simp [before] at * <;> omega

theorem ne_of_before (before : first.before second) : first ≠ second := by
  rintro rfl
  cases first <;> simp [Production.before] at before

end Production

namespace RuleTable

variable {table other : RuleTable α} {key : Production} {block : RuleBlock α}

/-- Rules stand in order, and none of them twice. -/
def Ordered (table : RuleTable α) : Prop :=
  (table.entries.map Prod.fst).Pairwise fun first second => first.before second

theorem Ordered.nodup (ordered : table.Ordered) : (table.entries.map Prod.fst).Nodup :=
  ordered.imp Production.ne_of_before

theorem mem_place {entries : List (Production × RuleBlock α)} {other : Production}
    (member : other ∈ (place key block entries).map Prod.fst) :
    other = key ∨ other ∈ entries.map Prod.fst := by
  induction entries with
  | nil => simpa [place] using member
  | cons entry rest ih =>
    obtain ⟨here, old⟩ := entry
    unfold place at member
    split at member
    · simp only [List.map_cons, List.mem_cons] at member ⊢
      tauto
    · split at member
      · simpa using member
      · rcases List.mem_cons.mp member with rfl | later
        · exact .inr (by simp)
        · exact (ih later).imp_right (List.mem_cons_of_mem _)

theorem Ordered.insert (ordered : table.Ordered) : (table.insert key block).Ordered := by
  obtain ⟨entries⟩ := table
  simp only [Ordered, RuleTable.insert] at *
  induction entries with
  | nil => simp [place]
  | cons entry rest ih =>
    obtain ⟨here, old⟩ := entry
    obtain ⟨first, later⟩ := List.pairwise_cons.mp ordered
    unfold place
    split
    · rename_i same
      obtain rfl := eq_of_beq same
      exact ordered
    · rename_i different
      split
      · rename_i before
        refine List.pairwise_cons.mpr ⟨fun other member => ?_, ordered⟩
        rcases List.mem_cons.mp member with rfl | below
        · exact before
        · exact Production.before_trans before (first other below)
      · rename_i not
        refine List.pairwise_cons.mpr ⟨fun other member => ?_, ih later⟩
        rcases mem_place member with rfl | below
        · exact Production.before_total (by simpa using different) not
        · exact first other below

theorem Ordered.find? (ordered : table.Ordered) (member : (key, block) ∈ table.entries) :
    table.find? key = some block := by
  obtain ⟨entries⟩ := table
  simp only [Ordered, RuleTable.find?] at *
  induction entries with
  | nil => cases member
  | cons entry rest ih =>
    obtain ⟨other, old⟩ := entry
    obtain ⟨first, later⟩ := List.pairwise_cons.mp ordered
    rcases List.mem_cons.mp member with same | below
    · obtain ⟨rfl, rfl⟩ := Prod.mk.inj same
      exact List.lookup_cons_self
    · have before := first key (List.mem_map_of_mem below)
      have different := beq_false_of_ne (Production.ne_of_before before).symm
      rw [List.lookup_cons, different]
      exact ih later below

theorem find?_isSome_iff : (table.find? key).isSome ↔ key ∈ table.entries.map Prod.fst := by
  rw [find?, List.lookup_isSome_iff]
  simp

theorem find?_isSome_of_keys (keys : table.entries.map Prod.fst = other.entries.map Prod.fst)
    (key : Production) : (table.find? key).isSome = (other.find? key).isSome := by
  rw [Bool.eq_iff_iff, find?_isSome_iff, find?_isSome_iff, keys]

/-- The keys of a table in order are told by which rules are found. -/
theorem Ordered.keys_eq (ordered : table.Ordered) (inOrder : other.Ordered)
    (same : ∀ key, (table.find? key).isSome = (other.find? key).isSome) :
    table.entries.map Prod.fst = other.entries.map Prod.fst := by
  have irreflexive : Std.Irrefl fun first second : Production => first.before second :=
    ⟨fun _ before => Production.ne_of_before before rfl⟩
  have antisymmetric : Std.Antisymm fun first second : Production => first.before second :=
    ⟨fun _ _ before after =>
      absurd rfl (Production.ne_of_before (Production.before_trans before after))⟩
  refine ordered.eq_of_mem_iff inOrder fun key => ?_
  rw [← find?_isSome_iff, ← find?_isSome_iff, same]

theorem Ordered.ext (ordered : table.Ordered) (inOrder : other.Ordered)
    (same : ∀ key, table.find? key = other.find? key) : table = other := by
  have keys := ordered.keys_eq inOrder fun key => by rw [same key]
  obtain ⟨entries⟩ := table
  obtain ⟨others⟩ := other
  congr 1
  have length : entries.length = others.length := by simpa using congrArg List.length keys
  refine List.ext_getElem length fun n inside inside' => ?_
  have key : entries[n].1 = others[n].1 := by simpa [inside, inside'] using congrArg (·[n]?) keys
  have here : RuleTable.find? ⟨entries⟩ entries[n].1 = some entries[n].2 :=
    ordered.find? (List.getElem_mem inside)
  have there : RuleTable.find? ⟨others⟩ others[n].1 = some others[n].2 :=
    inOrder.find? (List.getElem_mem inside')
  rw [key, same, there] at here
  exact Prod.ext key (Option.some.inj here).symm

theorem mapScoresM_keys {f : Production → RuleBlock α → Except Fault (RuleBlock α)}
    {new : RuleTable α} (success : table.mapScoresM f = .ok new) :
    new.entries.map Prod.fst = table.entries.map Prod.fst := by
  obtain ⟨entries⟩ := table
  obtain ⟨replaced, mapped, done⟩ := bind_eq_ok_iff.mp success
  obtain rfl := Except.ok.inj done
  simp only at mapped ⊢
  clear success
  induction entries generalizing replaced with
  | nil =>
    obtain rfl := Except.ok.inj mapped
    rfl
  | cons entry rest ih =>
    rw [List.mapM_cons] at mapped
    obtain ⟨first, here, mapped⟩ := bind_eq_ok_iff.mp mapped
    obtain ⟨later, below, done⟩ := bind_eq_ok_iff.mp mapped
    obtain rfl := Except.ok.inj done
    obtain ⟨block, -, done⟩ := bind_eq_ok_iff.mp here
    obtain rfl := Except.ok.inj done
    rw [List.map_cons, List.map_cons, ih later below rfl]

end RuleTable

namespace RuleCounts

/-- Counts in a frame whose rules stand in order. -/
structure OrderedIn (counts : RuleCounts α) (frame : GrammarFrame α) : Prop where
  frame_eq : counts.toGrammarFrame = frame
  ordered : counts.rules.Ordered

variable {counts : RuleCounts α} {frame : GrammarFrame α} {previous : Grammar α}

theorem after_orderedIn [Zero α] {grammar : Grammar α} (ordered : grammar.rules.Ordered)
    (success : after grammar = .ok counts) : counts.OrderedIn grammar.toGrammarFrame := by
  obtain ⟨rules, mapped, done⟩ := bind_eq_ok_iff.mp success
  obtain rfl := Except.ok.inj done
  constructor
  · rfl
  · rw [RuleTable.Ordered, RuleTable.mapScoresM_keys mapped]
    exact ordered

theorem OrderedIn.insert (orderedIn : counts.OrderedIn frame) (key : Production)
    (block : RuleBlock α) :
    { counts with rules := counts.rules.insert key block }.OrderedIn frame :=
  ⟨orderedIn.frame_eq, orderedIn.ordered.insert⟩

variable [Scalar α]

theorem OrderedIn.countScoredTop (orderedIn : counts.OrderedIn frame) (mass : α) (scale : Int)
    (tree : LatentTree α) :
    Delivers Any (·.OrderedIn frame) (countScoredTop previous mass scale counts tree) := by
  cases tree with
  | preterminal => exact orderedIn
  | unary state scores child =>
    simp only [RuleCounts.countScoredTop, LatentTree.rule?]
    cases previous.rule? (.unary state child.state) with
    | none => exact orderedIn
    | some rule =>
      exact (delivers_any _).bind fun _ _ => (delivers_any _).bind fun block _ =>
        orderedIn.insert _ block
  | binary state scores left right =>
    simp only [RuleCounts.countScoredTop, LatentTree.rule?]
    cases previous.rule? (.binary state left.state right.state) with
    | none => exact orderedIn
    | some rule =>
      exact (delivers_any _).bind fun _ _ => (delivers_any _).bind fun block _ =>
        orderedIn.insert _ block

theorem OrderedIn.countScored (orderedIn : counts.OrderedIn frame) (tree : LatentTree α) :
    Delivers Any (·.OrderedIn frame) (counts.countScored previous tree) := by
  apply (delivers_any _).bind
  intro mass _
  apply Delivers.ite
  · intro _
    exact orderedIn
  · intro _
    exact Delivers.foldlM orderedIn fun _ node _ orderedIn =>
      orderedIn.countScoredTop mass _ node

end RuleCounts

namespace Training

variable [Scalar α] {model : Model α} {frame : GrammarFrame α}

/-- The rules that are counted stand in order. -/
def Expectation.OrderedIn (expectation : Expectation α) (frame : GrammarFrame α) : Prop :=
  ∀ counts, expectation.rules = some counts → counts.OrderedIn frame

theorem Expectation.OrderedIn.expectTree {expectation : Expectation α}
    (orderedIn : expectation.OrderedIn frame) (rare : α) (size index : Nat) (tree : LatentTree α) :
    Delivers Any (·.2.OrderedIn frame) (expectTree model rare size index tree expectation) := by
  refine (delivers_any _).bind fun scored _ => (delivers_any _).bind fun mass _ => ?_
  refine Delivers.ite (fun _ => ?_) fun _ => orderedIn
  refine (delivers_any _).bind fun emissions _ => ?_
  have counted : Delivers Any (fun rules => ∀ counts, rules = some counts → counts.OrderedIn frame)
      (expectation.rules.mapM (·.countScored model.grammar scored)) := by
    cases known : expectation.rules with
    | none => exact fun _ absent => nomatch absent
    | some counts =>
      refine ((orderedIn counts known).countScored scored).bind fun next ordered counts same => ?_
      obtain rfl := Option.some.inj same
      exact ordered
  exact counted.bind fun rules ordered => (delivers_any _).bind fun _ _ => ordered

/-- A pass that comes to its end leaves the rules in order. -/
theorem expectTrees_orderedIn {forest : Forest α} {rare : α} {start : Option (RuleCounts α)}
    {emissions : EmissionCounts α} (ordered : model.grammar.rules.Ordered)
    (afresh : countsAfter model true = .ok (start, emissions))
    (sound : (expectTrees model rare forest start emissions).fault = none) :
    (expectTrees model rare forest start emissions).result.OrderedIn
      model.grammar.toGrammarFrame := by
  have initial : (⟨.start, start, emissions⟩ : Expectation α).OrderedIn
      model.grammar.toGrammarFrame := by
    obtain ⟨first, begun, success⟩ := bind_eq_ok_iff.mp afresh
    obtain ⟨second, -, done⟩ := bind_eq_ok_iff.mp success
    cases done
    intro counts same
    obtain rfl : start = some counts := same
    cases known : RuleCounts.after model.grammar with
    | error fault =>
      rw [known] at begun
      cases begun
    | ok after =>
      rw [known] at begun
      cases begun
      exact RuleCounts.after_orderedIn ordered known
  have each (index : Nat) (tree : LatentTree α) (expectation : Expectation α) (_ : True)
      (orderedIn : expectation.OrderedIn model.grammar.toGrammarFrame) :
      Delivers Any (fun next => True ∧ next.2.OrderedIn model.grammar.toGrammarFrame)
        (expectTree model rare forest.size index tree expectation) :=
    (orderedIn.expectTree rare forest.size index tree).mono fun _ kept => ⟨trivial, kept⟩
  obtain ⟨-, result⟩ := Forest.sweep_delivers each (fun _ _ => trivial) initial 0
  unfold expectTrees at sound ⊢
  rw [sound] at result
  exact result

end Training

end LatentGrammar
