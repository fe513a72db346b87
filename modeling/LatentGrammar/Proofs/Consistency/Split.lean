import LatentGrammar.Proofs.Counting.Rules
import LatentGrammar.Model

namespace LatentGrammar

variable {α : Type} {allowed : Fault → Prop}

/-- Grammar and lexicon share substates, root and ancestry, the root has a single substate and every
category at least one, and all tables have the sizes that the substates give them. -/
structure Model.Consistent (model : Model α) (categories root : Nat) : Prop where
  categories_eq : model.grammar.substates.length = categories
  root_eq : model.grammar.root = root
  single : model.grammar.substates[root]? = some 1
  positive : ∀ size ∈ model.grammar.substates, 1 ≤ size
  ancestry : List.Forall₂ Ancestry.Fits model.grammar.ancestry model.grammar.substates
  rules : model.grammar.rules.Fits model.grammar.substates
  substates_eq : model.lexicon.substates = model.grammar.substates
  lexiconRoot_eq : model.lexicon.root = model.grammar.root
  ancestry_eq : model.lexicon.ancestry = model.grammar.ancestry
  tables : model.lexicon.tables.Fits model.lexicon.substates

namespace Model.Consistent

variable {model : Model α} {categories root : Nat}

theorem lexicon (consistent : model.Consistent categories root) : model.lexicon.Consistent where
  ancestry := by
    rw [consistent.ancestry_eq, consistent.substates_eq]
    exact consistent.ancestry
  tables := consistent.tables

theorem withSmoothing (consistent : model.Consistent categories root) [Scalar α]
    (grammar lexicon : Smoothing α) :
    (model.withSmoothing grammar lexicon).Consistent categories root :=
  { consistent with }

end Model.Consistent

theorem zip_getElem? {β γ : Type} {firsts : List β} {seconds : List γ} {index : Nat} {first : β}
    {second : γ} (found : firsts[index]? = some first) (partner : seconds[index]? = some second) :
    (firsts.zip seconds)[index]? = some (first, second) :=
  List.getElem?_zip_eq_some.mpr ⟨found, partner⟩

/-- There is a factor of one or two for every category, and the root is not split. -/
structure FactorsFit (factors substates : List Nat) (root : Nat) : Prop where
  length_eq : factors.length = substates.length
  bounds : ∀ factor ∈ factors, factor = 1 ∨ factor = 2
  root : ∀ factor, factors[root]? = some factor → factor = 1

variable {substates factors counts : List Nat} {root : Nat} {unbounded : Bool}

theorem growthFactors_delivers (substates : List Nat) (root : Nat) (counts : List Nat)
    (unbounded : Bool) (overflow : allowed .overflow) :
    Delivers allowed (FactorsFit · substates root)
      (growthFactors substates root counts unbounded) := by
  have each (size state : Nat) :
      Delivers allowed (fun factor => (factor = 1 ∨ factor = 2) ∧ (state = root → factor = 1))
        (growthFactor root counts unbounded size state) := by
    unfold growthFactor
    apply Delivers.ite
    · intro _
      exact ⟨.inl rfl, fun _ => rfl⟩
    intro other
    have notRoot : state ≠ root := by simpa using other
    apply Delivers.ite
    · intro _
      exact ⟨.inr rfl, fun same => absurd same notRoot⟩
    intro _
    apply (delivers_word overflow).bind
    intro doubled _
    refine ⟨?_, fun same => absurd same notRoot⟩
    split <;> simp
  refine (Delivers.mapM_zipIdx fun size state _ => each size state).mono
    fun factors ⟨length, all⟩ => ⟨length, fun factor member => ?_, fun factor found => ?_⟩
  · obtain ⟨state, found⟩ := List.getElem?_of_mem member
    exact (all state factor found).1
  · exact (all root factor found).2 rfl

/-- Numbers of substates after a split. -/
def products (substates factors : List Nat) : List Nat :=
  (substates.zip factors).map fun (size, factor) => size * factor

theorem multiply_delivers (substates factors : List Nat) (overflow : allowed .overflow) :
    Delivers allowed (· = products substates factors) (multiply substates factors) :=
  Delivers.mapM_eq fun _ _ => delivers_word overflow

theorem products_getElem? {state size factor : Nat} (found : substates[state]? = some size)
    (grows : factors[state]? = some factor) :
    (products substates factors)[state]? = some (size * factor) := by
  simp [products, zip_getElem? found grows]

namespace FactorsFit

variable (fits : FactorsFit factors substates root)

include fits

theorem length_products : (products substates factors).length = substates.length := by
  simp [products, fits.length_eq]

theorem factor_of {state size : Nat} (found : substates[state]? = some size) :
    ∃ factor, factors[state]? = some factor ∧ (factor = 1 ∨ factor = 2) := by
  have below : state < factors.length := by
    rw [fits.length_eq]
    exact (List.getElem?_eq_some_iff.mp found).1
  exact ⟨_, List.getElem?_eq_getElem below, fits.bounds _ (List.getElem_mem below)⟩

theorem factors_positive : ∀ factor ∈ factors, 0 < factor := by
  intro factor member
  rcases fits.bounds factor member with rfl | rfl <;> decide

theorem positive {state factor : Nat} (grows : factors[state]? = some factor) : 0 < factor :=
  fits.factors_positive factor (List.mem_of_getElem? grows)

omit fits in
theorem of_products {state size : Nat} (found : (products substates factors)[state]? = some size) :
    ∃ old factor, substates[state]? = some old ∧ factors[state]? = some factor ∧
      size = old * factor := by
  simp only [products, List.getElem?_map, Option.map_eq_some_iff] at found
  obtain ⟨⟨old, factor⟩, both, same⟩ := found
  obtain ⟨known, grows⟩ := List.getElem?_zip_eq_some.mp both
  exact ⟨old, factor, known, grows, same.symm⟩

theorem products_root (single : substates[root]? = some 1) :
    (products substates factors)[root]? = some 1 := by
  obtain ⟨factor, grows, -⟩ := fits.factor_of single
  have one := fits.root factor grows
  rw [products_getElem? single grows, one]

theorem products_positive (positive : ∀ size ∈ substates, 1 ≤ size) :
    ∀ size ∈ products substates factors, 1 ≤ size := by
  intro size member
  obtain ⟨state, found⟩ := List.getElem?_of_mem member
  obtain ⟨old, factor, known, grows, rfl⟩ := of_products found
  have old := positive old (List.mem_of_getElem? known)
  rcases fits.bounds factor (List.mem_of_getElem? grows) with rfl | rfl <;> omega

theorem splitAncestries {ancestries : List Ancestry}
    (ancestry : List.Forall₂ Ancestry.Fits ancestries substates) :
    List.Forall₂ Ancestry.Fits (LatentGrammar.splitAncestries ancestries factors)
      (products substates factors) := by
  refine forall₂_of_getElem? ?_ fun state next size found product => ?_
  · simp [LatentGrammar.splitAncestries, products, ancestry.length_eq]
  · obtain ⟨old, factor, known, grows, rfl⟩ := of_products product
    obtain ⟨before, present, sized⟩ := exists_of_forall₂ ancestry known
    simp only [LatentGrammar.splitAncestries, List.getElem?_map,
      zip_getElem? present grows, Option.map_some, Option.some.injEq] at found
    have sized : before.parents.length = old := sized
    rcases fits.bounds factor (List.mem_of_getElem? grows) with rfl | rfl
    · subst found
      simp [Ancestry.Fits, Ancestry.renumber, Ancestry.size, sized]
    · subst found
      simp [Ancestry.Fits, Ancestry.split, Ancestry.size, sized]

end FactorsFit

/-- A rule's categories have factors, by which their numbers of substates grow. -/
theorem Production.growthFactors_eq {key : Production} {parents lefts rights : Nat}
    (fits : FactorsFit factors substates root)
    (dimensions : key.dimensions substates = .ok (parents, lefts, rights)) :
    ∃ fp fl fr, key.growthFactors factors = .ok (fp, fl, fr) ∧
      key.dimensions (products substates factors) =
        .ok (parents * fp, lefts * fl, rights * fr) := by
  cases key with
  | unary parent child =>
    obtain ⟨foundParent, foundChild, rfl⟩ := dimensions_unary_iff.mp dimensions
    obtain ⟨fp, growsParent, -⟩ := fits.factor_of foundParent
    obtain ⟨fl, growsChild, -⟩ := fits.factor_of foundChild
    refine ⟨fp, fl, 1, ?_, dimensions_unary_iff.mpr ⟨products_getElem? foundParent growsParent,
      products_getElem? foundChild growsChild, rfl⟩⟩
    simp only [growthFactors, fetch_eq_ok_iff.mpr growsParent, fetch_eq_ok_iff.mpr growsChild]
    rfl
  | binary parent left right =>
    obtain ⟨foundParent, foundLeft, foundRight⟩ := dimensions_binary_iff.mp dimensions
    obtain ⟨fp, growsParent, -⟩ := fits.factor_of foundParent
    obtain ⟨fl, growsLeft, -⟩ := fits.factor_of foundLeft
    obtain ⟨fr, growsRight, -⟩ := fits.factor_of foundRight
    refine ⟨fp, fl, fr, ?_, dimensions_binary_iff.mpr ⟨products_getElem? foundParent growsParent,
      products_getElem? foundLeft growsLeft, products_getElem? foundRight growsRight⟩⟩
    simp only [growthFactors, fetch_eq_ok_iff.mpr growsParent, fetch_eq_ok_iff.mpr growsLeft,
      fetch_eq_ok_iff.mpr growsRight]
    rfl

theorem length_flatten_of_forall {β : Type} {rows : List (List β)} {width : Nat}
    (each : ∀ row ∈ rows, row.length = width) : rows.flatten.length = rows.length * width := by
  induction rows with
  | nil => simp
  | cons row rest ih =>
    obtain ⟨here, below⟩ := List.forall_mem_cons.mp each
    rw [List.flatten_cons, List.length_append, ih below, here, List.length_cons]
    rw [Nat.succ_mul, Nat.add_comm]

/-- Rows of equal length that are tabulated and joined. -/
theorem delivers_flatten {β : Type} {f : Nat → Except Fault (List β)} {count width : Nat}
    (each : ∀ n, n < count → Delivers allowed (·.length = width) (f n)) :
    Delivers allowed (fun rows => rows.flatten.length = count * width) (tabulate count f) := by
  apply (Delivers.tabulate each).mono
  intro rows all
  have length : rows.length = count := by simpa using all.length_eq.symm
  rw [length_flatten_of_forall fun row member => ?_, length]
  obtain ⟨n, found⟩ := List.getElem?_of_mem member
  obtain ⟨-, -, same⟩ := exists_of_forall₂ all found
  exact same

variable [Scalar α]

/-- Every new cell has an old one that it is a share of. -/
theorem RuleBlock.splitCells_delivers {old : RuleBlock α} {parents lefts rights fp fl fr : Nat}
    (sized : old.Sized parents lefts rights) (overflow : allowed .overflow) :
    Delivers allowed (·.length = parents * fp * (lefts * fl) * (rights * fr))
      (old.splitCells (fp, fl, fr) (parents * fp, lefts * fl, rights * fr)) := by
  apply (cellCount_delivers _ _ _ overflow).bind
  intro count same
  subst same
  refine Delivers.ite (fun none => ?_) fun _ => ?_
  · simpa using (eq_of_beq none).symm
  have cell {i j k : Nat} (parent : i < parents * fp) (left : j < lefts * fl)
      (right : k < rights * fr) :
      Delivers allowed (fun _ => True) (old.get (i / fp) (j / fl) (k / fr)) := by
    rw [sized.get_eq (Nat.div_lt_of_lt_mul (Nat.mul_comm _ fp ▸ parent))
      (Nat.div_lt_of_lt_mul (Nat.mul_comm _ fl ▸ left))
      (Nat.div_lt_of_lt_mul (Nat.mul_comm _ fr ▸ right))]
    trivial
  have rows (i : Nat) (parent : i < parents * fp) :
      Delivers allowed (·.length = lefts * fl * (rights * fr)) (do
        let columns ← tabulate (lefts * fl) fun j => tabulate (rights * fr) fun k => do
          return (← old.get (i / fp) (j / fl) (k / fr)) / ((fl * fr : Nat) : α)
        return columns.flatten) := by
    refine (delivers_flatten fun j left => ?_).bind fun columns length => length
    exact Delivers.length_tabulate fun k right => (cell parent left right).bind fun _ _ => trivial
  apply (delivers_flatten rows).bind
  intro rows length
  rw [Nat.mul_assoc]
  exact length

theorem RuleBlock.split_delivers {γ : Type} [Draws γ α] {old : RuleBlock α}
    {parents lefts rights fp fl fr : Nat} (sized : old.Sized parents lefts rights)
    (randomness : α) (stream : γ) (overflow : allowed .overflow) :
    Delivers allowed (·.1.Sized (parents * fp) (lefts * fl) (rights * fr))
      (old.split (fp, fl, fr) (parents * fp, lefts * fl, rights * fr) randomness stream) := by
  apply (splitCells_delivers sized overflow).bind
  intro cells length
  exact ⟨rfl, rfl, rfl, by simpa using length⟩

theorem splitRules_delivers {γ : Type} [Draws γ α] {entries : List (Production × RuleBlock α)}
    (fits : ∀ entry ∈ entries, entry.2.Fits entry.1 substates)
    (grow : FactorsFit factors substates root) (randomness : α) (stream : γ)
    (overflow : allowed .overflow) :
    Delivers allowed
      (fun result => ∀ entry ∈ result.1, entry.2.Fits entry.1 (products substates factors))
      (splitRules factors (products substates factors) randomness entries stream) := by
  induction entries generalizing stream with
  | nil => simp [splitRules]
  | cons entry rest ih =>
    obtain ⟨key, old⟩ := entry
    obtain ⟨here, below⟩ := List.forall_mem_cons.mp fits
    obtain ⟨parents, lefts, rights, dimensions, sized⟩ := here
    obtain ⟨fp, fl, fr, grows, grown⟩ := Production.growthFactors_eq grow dimensions
    simp only [splitRules, grows, grown]
    refine (RuleBlock.split_delivers sized randomness stream overflow).bind
      fun (block, stream) newSized => ?_
    apply (ih below stream).bind
    rintro ⟨later, stream⟩ laterFit
    exact List.forall_mem_cons.mpr ⟨newSized.fits grown, laterFit⟩

theorem Grammar.split_delivers {γ : Type} [Draws γ α] {grammar : Grammar α}
    (rules : grammar.rules.Fits grammar.substates) (randomness : α) (stream : γ)
    (overflow : allowed .overflow) :
    Delivers allowed (fun result => ∃ factors,
        growthFactors grammar.substates grammar.root counts unbounded = .ok factors ∧
        FactorsFit factors grammar.substates grammar.root ∧
        multiply grammar.substates factors = .ok (products grammar.substates factors) ∧
        result.1.substates = products grammar.substates factors ∧
        result.1.root = grammar.root ∧
        result.1.ancestry = splitAncestries grammar.ancestry factors ∧
        result.1.rules.Fits result.1.substates)
      (grammar.split randomness counts unbounded stream) := by
  apply (growthFactors_delivers _ _ counts unbounded overflow).bind_ok
  intro factors grows grow
  apply (multiply_delivers _ factors overflow).bind_ok
  intro substates grown same
  subst same
  refine (splitRules_delivers rules grow randomness stream overflow).bind
    fun (entries, stream) fits => ?_
  exact ⟨factors, grows, grow, grown, rfl, rfl, rfl, fits⟩

theorem length_shareCounts (factor : Nat) (values : List α) :
    (shareCounts factor values).length = values.length * factor := by
  induction values with
  | nil => simp [shareCounts]
  | cons value rest ih =>
    simp only [shareCounts, List.flatMap_cons, List.length_append, List.length_replicate,
      List.length_cons] at ih ⊢
    rw [ih, Nat.succ_mul, Nat.add_comm]

theorem splitNames_fits {γ : Type} [Draws γ α] {table : NameTable (List α)} {size : Nat}
    (fits : table.Fits size) (factor : Nat) (randomness : α) (stream : γ) :
    NameTable.Fits (splitNames factor randomness table stream).1 (size * factor) := by
  induction table generalizing stream with
  | nil => exact fun entry member => absurd member (List.not_mem_nil)
  | cons entry rest ih =>
    obtain ⟨name, values⟩ := entry
    obtain ⟨here, below⟩ := List.forall_mem_cons.mp fits
    have here : values.length = size := here
    refine List.forall_mem_cons.mpr ⟨?_, ih below _⟩
    rw [length_perturbAll, length_shareCounts, here]

theorem splitTables_fits {γ : Type} [Draws γ α] {tables : List (NameTable (List α))}
    (fits : List.Forall₂ NameTable.Fits tables substates) {factors : List Nat}
    (length : factors.length = substates.length) (randomness : α) (stream : γ) :
    List.Forall₂ NameTable.Fits (splitTables randomness (factors.zip tables) stream).1
      (products substates factors) := by
  induction fits generalizing factors stream with
  | nil =>
    obtain rfl := List.eq_nil_of_length_eq_zero length
    exact .nil
  | cons here _ ih =>
    cases factors with
    | nil => simp at length
    | cons factor factors =>
      exact .cons (splitNames_fits here factor randomness stream) (ih (by simpa using length) _)

omit [Scalar α] in
theorem fitTables_eq {size : Nat} {tables : List (NameTable (List α))}
    (length : tables.length = size) : fitTables size tables = .ok tables := by
  subst length
  simp [fitTables]

theorem length_columnSums (size : Nat) (words : NameTable (List α)) :
    (EmissionTables.columnSums size words).length = size := by
  have kept (totals : List α) : (words.foldl (fun totals entry =>
      Scalar.addInto totals entry.2) totals).length = totals.length := by
    induction words generalizing totals with
    | nil => rfl
    | cons entry rest ih => simp [ih]
  exact (kept _).trans List.length_replicate

theorem retable_fits {tables : EmissionTables α} {words signatures : List (NameTable (List α))}
    (wordsFit : List.Forall₂ NameTable.Fits words substates)
    (signaturesFit : List.Forall₂ NameTable.Fits signatures substates) :
    (tables.retable substates words signatures).Fits substates := by
  have sums {sizes : List Nat} {table : List (NameTable (List α))}
      (fits : List.Forall₂ NameTable.Fits table sizes) : List.Forall₂ HasSize
        ((sizes.zip table).map fun entry => EmissionTables.columnSums entry.1 entry.2)
        sizes := by
    induction fits with
    | nil => exact .nil
    | cons _ _ ih => exact .cons (length_columnSums _ _) ih
  exact ⟨sums wordsFit, wordsFit, sums signaturesFit, signaturesFit⟩

/-- A lexicon is split by the same factors as a grammar with the same substates and root. -/
theorem Lexicon.split_delivers {γ : Type} [Draws γ α] {lexicon : Lexicon α}
    (tables : lexicon.tables.Fits lexicon.substates)
    (grows : growthFactors lexicon.substates lexicon.root counts unbounded = .ok factors)
    (grow : FactorsFit factors lexicon.substates lexicon.root)
    (grown : multiply lexicon.substates factors = .ok (products lexicon.substates factors))
    (randomness : α) (stream : γ) (overflow : allowed .overflow) :
    Delivers allowed (fun result =>
        result.1.substates = products lexicon.substates factors ∧
        result.1.root = lexicon.root ∧
        result.1.ancestry = splitAncestries lexicon.ancestry factors ∧
        result.1.tables.Fits result.1.substates)
      (lexicon.split randomness counts unbounded stream) := by
  have length := grow.length_products
  simp only [Lexicon.split, grows, ok_bind, grown]
  apply (delivers_checkSizes fun _ => overflow).bind
  intro _ _
  rw [fitTables_eq (tables.wordCounts.length_eq.trans length.symm),
    fitTables_eq (tables.unseenSignatureCounts.length_eq.trans length.symm)]
  exact ⟨rfl, rfl, rfl, retable_fits (splitTables_fits tables.wordCounts grow.length_eq _ _)
    (splitTables_fits tables.unseenSignatureCounts grow.length_eq _ _)⟩

theorem Model.Consistent.split {γ : Type} [Draws γ α] {model : Model α} {categories : Nat}
    (consistent : model.Consistent categories root) (grammarNoise lexiconNoise : α)
    (counts : List Nat) (unbounded : Bool) (stream : γ) (overflow : allowed .overflow) :
    Delivers allowed (·.1.Consistent categories root)
      (model.split grammarNoise lexiconNoise counts unbounded stream) := by
  refine (Grammar.split_delivers consistent.rules grammarNoise stream overflow).bind
    fun (grammar, stream) result => ?_
  obtain ⟨factors, grows, grow, grown, substates, sameRoot, ancestry, rules⟩ := result
  rw [← consistent.substates_eq, ← consistent.lexiconRoot_eq] at grows grow
  rw [← consistent.substates_eq] at grown
  refine (Lexicon.split_delivers consistent.tables grows grow grown lexiconNoise stream
    overflow).bind fun (lexicon, stream) result => ?_
  obtain ⟨lexiconSubstates, lexiconRoot, lexiconAncestry, tables⟩ := result
  rw [consistent.substates_eq] at lexiconSubstates grow
  rw [consistent.lexiconRoot_eq, consistent.root_eq] at grow
  dsimp only at substates
  exact {
    categories_eq := by rw [substates, grow.length_products, consistent.categories_eq]
    root_eq := sameRoot.trans consistent.root_eq
    single := by rw [substates]; exact grow.products_root consistent.single
    positive := by rw [substates]; exact grow.products_positive consistent.positive
    ancestry := by
      rw [substates, show grammar.ancestry = _ from ancestry]
      exact grow.splitAncestries consistent.ancestry
    rules
    substates_eq := lexiconSubstates.trans substates.symm
    lexiconRoot_eq := by
      rw [show lexicon.root = _ from lexiconRoot, show grammar.root = _ from sameRoot]
      exact consistent.lexiconRoot_eq
    ancestry_eq := by
      rw [show lexicon.ancestry = _ from lexiconAncestry, consistent.ancestry_eq]
      exact ancestry.symm
    tables }

end LatentGrammar
