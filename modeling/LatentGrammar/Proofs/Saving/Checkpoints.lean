import LatentGrammar.Proofs.Consistency.Start
import LatentGrammar.Proofs.Reestimation.Ordered
import LatentGrammar.Proofs.Saving.Recovery

namespace LatentGrammar

variable {α β : Type}

theorem foldl_entries {ε τ : Type} (table : List ε → τ) {add : τ → ε → τ} {entries : List ε}
    (appends : ∀ earlier entry later, earlier ++ entry :: later = entries →
      add (table earlier) entry = table (earlier ++ [entry])) :
    entries.foldl add (table []) = table entries := by
  induction entries using List.reverseRecOn with
  | nil => rfl
  | append_singleton entries entry ih =>
    have before : entries.foldl add (table []) = table entries :=
      ih fun earlier other later same => appends earlier other (later ++ [entry]) (by simp [← same])
    rw [List.foldl_append, before]
    exact appends entries entry [] rfl

/-- Every name has a single entry. -/
def NameTable.Distinct (table : NameTable β) : Prop := (table.map Prod.fst).Nodup

theorem NameTable.alter_new {table : NameTable β} {name : String} (default : β) (f : β → β)
    (new : name ∉ table.map Prod.fst) :
    table.alter name default f = table ++ [(name, f default)] := by
  induction table with
  | nil => rfl
  | cons entry rest ih =>
    obtain ⟨different, later⟩ := not_or.mp (List.mem_cons.not.mp new)
    rw [NameTable.alter, if_neg (by simpa using different), ih later, List.cons_append]

theorem NameTable.Distinct.ofList_eq {table : NameTable β} (distinct : table.Distinct) :
    ofList table = table := by
  refine foldl_entries id fun earlier entry later same => ?_
  refine NameTable.alter_new _ _ fun member => ?_
  rw [Distinct, ← same, List.map_append, List.map_cons] at distinct
  exact (List.nodup_append.mp distinct).2.2 _ member _ List.mem_cons_self rfl

theorem RuleTable.place_last {entries : List (Production × RuleBlock α)} {key : Production}
    {block : RuleBlock α} (last : ∀ entry ∈ entries, entry.1.before key) :
    place key block entries = entries ++ [(key, block)] := by
  induction entries with
  | nil => rfl
  | cons entry rest ih =>
    obtain ⟨here, later⟩ := List.forall_mem_cons.mp last
    have different : key ≠ entry.1 := (Production.ne_of_before here).symm
    have not : ¬key.before entry.1 := fun before =>
      Production.ne_of_before (Production.before_trans before here) rfl
    rw [place, if_neg (by simpa using different), if_neg not, ih later, List.cons_append]

theorem RuleTable.Ordered.ofList_eq {table : RuleTable α} (ordered : table.Ordered) :
    ofList table.entries = table := by
  refine foldl_entries RuleTable.mk fun earlier entry later same => ?_
  refine congrArg RuleTable.mk (place_last ?_)
  intro other member
  rw [Ordered, ← same, List.map_append, List.map_cons] at ordered
  exact (List.pairwise_append.mp ordered).2.2 _ (List.mem_map_of_mem member) _ List.mem_cons_self

/-- The word that stands for the absence of a parent numbers no substate. -/
def Ancestry.InWords (ancestry : Ancestry) : Prop :=
  ∀ substate, some substate ∈ ancestry.parents → substate < Word.greatest

def Production.InWords (key : Production) : Prop :=
  ∀ state ∈ key.parent :: key.children, state < Word.limit

structure RuleBlock.InWords (block : RuleBlock α) : Prop where
  parents : block.parents < Word.limit
  lefts : block.lefts < Word.limit
  rights : block.rights < Word.limit

structure Grammar.Proper (grammar : Grammar α) : Prop where
  substates : ∀ size ∈ grammar.substates, size < Word.limit
  root : grammar.root < Word.limit
  ordered : grammar.rules.Ordered
  keys : ∀ entry ∈ grammar.rules.entries, entry.1.InWords
  blocks : ∀ entry ∈ grammar.rules.entries, entry.2.InWords
  ancestry : ∀ ancestry ∈ grammar.ancestry, ancestry.InWords

structure EmissionTables.Distinct (tables : EmissionTables α) : Prop where
  wordCounts : ∀ table ∈ tables.wordCounts, table.Distinct
  wordTotals : tables.wordTotals.Distinct
  signatureCounts : ∀ table ∈ tables.unseenSignatureCounts, table.Distinct
  signatureTotals : tables.unseenSignatureTotals.Distinct

structure Lexicon.Proper (lexicon : Lexicon α) : Prop where
  substates : ∀ size ∈ lexicon.substates, size < Word.limit
  root : lexicon.root < Word.limit
  tables : lexicon.tables.Distinct
  ancestry : ∀ ancestry ∈ lexicon.ancestry, ancestry.InWords

/-- Vocabularies come about by numbering labels and by taking over stored tables. -/
inductive Vocabulary.Built : Vocabulary → Prop where
  | empty (rootLabel : String) : Built (.empty rootLabel)
  | intern {vocabulary : Vocabulary} (label : String) (built : Built vocabulary) :
    Built (vocabulary.intern label).2
  | restore {vocabulary : Vocabulary} (stored : Vocabulary) (built : Built vocabulary) :
    Built (vocabulary.restore stored)

structure Checkpoint.Proper (checkpoint : Checkpoint α) : Prop where
  grammar : checkpoint.model.grammar.Proper
  lexicon : checkpoint.model.lexicon.Proper
  vocabulary : checkpoint.vocabulary.Built
  substates : ∀ size ∈ checkpoint.substates, size < Word.limit
  vertical : checkpoint.vertical < Word.limit
  horizontal : checkpoint.horizontal < Word.limit

def Smoothing.numbers : Smoothing α → List α
  | .none => []
  | .acrossSiblings strength => [strength]

def Grammar.numbers (grammar : Grammar α) : List α :=
  [grammar.rules.entries.flatMap fun entry => entry.2.cells.toList,
    grammar.smoothing.numbers, [grammar.threshold]].flatten

def LexiconSettings.numbers (settings : LexiconSettings α) : List α :=
  [settings.wordSmoothing, settings.signatureSmoothing, settings.smoothingCutoff,
    settings.threshold]

def EmissionTables.numbers (tables : EmissionTables α) : List α :=
  [tables.tagCounts.flatten, tables.wordCounts.flatMap (·.flatMap Prod.snd),
    tables.wordTotals.map Prod.snd, [tables.totalTokens], tables.unseenTagCounts.flatten,
    tables.unseenSignatureCounts.flatMap (·.flatMap Prod.snd),
    tables.unseenSignatureTotals.map Prod.snd, [tables.unseenTotal]].flatten

def Lexicon.numbers (lexicon : Lexicon α) : List α :=
  [lexicon.settings.numbers, lexicon.tables.numbers, lexicon.smoothing.numbers].flatten

def Checkpoint.numbers (checkpoint : Checkpoint α) : List α :=
  [checkpoint.model.grammar.numbers, checkpoint.model.lexicon.numbers].flatten

variable [Scalar α]

open Json

theorem Ancestry.recovers {ancestry : Ancestry} (words : ancestry.InWords) :
    Recovers ([] : List α) ancestry (Ancestry.decode? (ancestry.encode : Json α)) := by
  have codes : ∀ code ∈ ancestry.parents.map parentCode, code < Word.limit := by
    intro code member
    obtain ⟨parent, known, rfl⟩ := List.mem_map.mp member
    cases parent with
    | none => decide
    | some substate => exact (words substate known).trans (by decide)
  have back : (ancestry.parents.map parentCode).map parentOfCode = ancestry.parents := by
    rw [List.map_map]
    refine (List.map_congr_left fun parent known => ?_).trans (List.map_id _)
    cases parent with
    | none => rfl
    | some substate =>
      have other : parentCode (some substate) ≠ Word.greatest := (words substate known).ne
      exact if_neg (by simpa using other)
  refine (recovers_record (by rfl) (by decide)).next ?_
  exact (recovers_nats codes).last (congrArg (fun parents => some (Ancestry.mk parents)) back)

theorem Smoothing.recovers (form : PayloadForm) (smoothing : Smoothing α) :
    Recovers smoothing.numbers smoothing (decode? form (smoothing.encode .exact)) := by
  cases smoothing with
  | none => exact .of_eq rfl
  | acrossSiblings strength =>
    refine Recovers.next (.some _) ?_
    refine (recovers_payload (by rfl) (by decide)).next ?_
    exact (recovers_number strength).last rfl

theorem Production.recovers (form : PayloadForm) {key : Production} (words : key.InWords) :
    Recovers ([] : List α) key (decode? form (key.encode : Json α)) := by
  cases key with
  | unary parent child =>
    refine Recovers.next (.some _) ?_
    refine (recovers_payload (by rfl) (by decide)).next ?_
    refine (recovers_nat (words _ (by simp [Production.parent]))).next ?_
    exact (recovers_nat (words _ (by simp [children]))).next (.some _)
  | binary parent left right =>
    refine Recovers.next (.some _) ?_
    refine (recovers_payload (by rfl) (by decide)).next ?_
    refine (recovers_nat (words _ (by simp [Production.parent]))).next ?_
    refine (recovers_nat (words _ (by simp [children]))).next ?_
    exact (recovers_nat (words _ (by simp [children]))).next (.some _)

theorem RuleBlock.recovers {block : RuleBlock α} (words : block.InWords) :
    Recovers block.cells.toList block (decode? (block.encode .exact)) := by
  refine (recovers_record (by rfl) (by decide)).next ?_
  have dims : ∀ n ∈ [block.parents, block.lefts, block.rights], n < Word.limit := by
    simp [words.parents, words.lefts, words.rights]
  exact (recovers_nats dims).next ((recovers_numbers _).last rfl)

theorem NameTable.recovers {write : β → Json α} {value? : Json α → Option β}
    {numbers : β → List α} {table : NameTable β} (distinct : table.Distinct)
    (each : ∀ value, Recovers (numbers value) value (value? (write value))) :
    Recovers (table.flatMap fun entry => numbers entry.2) table
      (decode? value? (.object (table.map fun (name, value) => (name, write value)))) := by
  have entries : Recovers (table.flatMap fun entry => numbers entry.2)
      (table.map fun entry => entry)
      (entries? value? (.object (table.map fun (name, value) => (name, write value)))) :=
    Recovers.mapM fun entry _ => (each entry.2).last rfl
  have named := entries.map NameTable.ofList
  rwa [List.map_id', distinct.ofList_eq] at named

theorem Grammar.recovers (form : PayloadForm) {grammar : Grammar α} (proper : grammar.Proper) :
    Recovers grammar.numbers grammar (decode? form (grammar.encode .exact)) := by
  have pair (entry : Production × RuleBlock α) (member : entry ∈ grammar.rules.entries) :
      Recovers entry.2.cells.toList entry (pair? (Production.decode? form) RuleBlock.decode?
        (.array [entry.1.encode, entry.2.encode .exact])) :=
    (Production.recovers form (proper.keys entry member)).next
      ((RuleBlock.recovers (proper.blocks entry member)).last rfl)
  refine (recovers_record (by rfl) (by decide)).next ?_
  refine (recovers_nats proper.substates).next ?_
  refine (recovers_nat proper.root).next ?_
  refine (recovers_list pair).bind ?_
  refine (Smoothing.recovers form _).bind ?_
  refine (recovers_number _).bind ?_
  have ancestries := recovers_plain_list fun ancestry member =>
    Ancestry.recovers (α := α) (proper.ancestry ancestry member)
  refine ancestries.last ?_
  rw [proper.ordered.ofList_eq]
  rfl

theorem Estimator.recovers (kind : Estimator) :
    Recovers ([] : List α) kind (decode? (kind.encode : Json α)) := by
  cases kind <;> exact .of_eq rfl

theorem LexiconSettings.recovers (settings : LexiconSettings α) :
    Recovers settings.numbers settings (decode? (settings.encode .exact)) := by
  refine (recovers_record (by rfl) (by decide)).next ?_
  refine (Estimator.recovers settings.kind).next ?_
  refine (recovers_number _).bind ?_
  refine (recovers_number _).bind ?_
  refine (recovers_number _).bind ?_
  exact (recovers_number _).last rfl

theorem recovers_vectors (vectors : List (List α)) :
    Recovers vectors.flatten vectors
      (list? (list? number?) (.array (vectors.map (LatentGrammar.numbers .exact)))) := by
  rw [← List.flatMap_id]
  exact recovers_list fun values _ => recovers_numbers values

theorem NameTable.recovers_counts {tables : List (NameTable (List α))}
    (distinct : ∀ table ∈ tables, table.Distinct) :
    Recovers (tables.flatMap (·.flatMap Prod.snd)) tables
      (list? (NameTable.decode? (list? number?)) (.array (tables.map fun table =>
        .object (table.map fun (name, counts) => (name, LatentGrammar.numbers .exact counts))))) :=
  recovers_list fun table member =>
    NameTable.recovers (distinct table member) recovers_numbers

theorem NameTable.recovers_totals {table : NameTable α} (distinct : table.Distinct) :
    Recovers (table.map Prod.snd) table (NameTable.decode? number?
      (.object (table.map fun (name, total) => (name, NumberFormat.exact total)))) := by
  rw [List.map_eq_flatMap]
  exact NameTable.recovers distinct recovers_number

theorem EmissionTables.recovers {tables : EmissionTables α} (distinct : tables.Distinct) :
    Recovers tables.numbers tables (decode? (tables.encode .exact)) := by
  refine (recovers_record (by rfl) (by decide)).next ?_
  refine (recovers_vectors _).bind ?_
  refine (NameTable.recovers_counts distinct.wordCounts).bind ?_
  refine (NameTable.recovers_totals distinct.wordTotals).bind ?_
  refine (recovers_number _).bind ?_
  refine (recovers_vectors _).bind ?_
  refine (NameTable.recovers_counts distinct.signatureCounts).bind ?_
  refine (NameTable.recovers_totals distinct.signatureTotals).bind ?_
  exact (recovers_number _).last rfl

theorem Lexicon.recovers (form : PayloadForm) {lexicon : Lexicon α} (proper : lexicon.Proper) :
    Recovers lexicon.numbers lexicon (decode? form (lexicon.encode .exact)) := by
  refine (recovers_record (by rfl) (by decide)).next ?_
  refine (recovers_nats proper.substates).next ?_
  refine (recovers_nat proper.root).next ?_
  refine (LexiconSettings.recovers _).bind ?_
  refine (EmissionTables.recovers proper.tables).bind ?_
  refine (Smoothing.recovers form _).bind ?_
  have ancestries := recovers_plain_list fun ancestry member =>
    Ancestry.recovers (α := α) (proper.ancestry ancestry member)
  exact ancestries.last rfl

theorem Vocabulary.Built.indexed {vocabulary : Vocabulary} (built : vocabulary.Built) :
    vocabulary.Indexed := by
  induction built with
  | empty rootLabel => exact indexed_empty rootLabel
  | intern label _ indexed => exact indexed.intern label
  | restore stored _ _ => exact indexed_indexed stored

theorem Vocabulary.recovers (vocabulary : Vocabulary) :
    Recovers ([] : List α) (unindexed vocabulary.labels vocabulary.rootLabel)
      (decode? (vocabulary.encode : Json α)) := by
  refine (recovers_record (by rfl) (by decide)).next ?_
  have labels : Recovers ([] : List α) vocabulary.labels
      (list? text? (.array (vocabulary.labels.map .string) : Json α)) :=
    recovers_plain_list fun label _ => .some label
  exact labels.next (.some _)

theorem Treebank.Direction.recovers (direction : Treebank.Direction) :
    Recovers ([] : List α) direction (decode? (direction.encode : Json α)) := by
  cases direction <;> exact .of_eq rfl

theorem Checkpoint.recovers {checkpoint : Checkpoint α} (proper : checkpoint.Proper) :
    Recovers checkpoint.numbers checkpoint (decode? (checkpoint.encode .exact)) := by
  refine (recovers_record (by rfl) (by decide)).next ?_
  refine (Grammar.recovers .namedOrListed proper.grammar).bind ?_
  refine (Lexicon.recovers .namedOrListed proper.lexicon).bind ?_
  refine (Vocabulary.recovers checkpoint.vocabulary).next ?_
  refine (recovers_nats proper.substates).next ?_
  refine (recovers_nat proper.vertical).next ?_
  refine (recovers_nat proper.horizontal).next ?_
  have vocabulary : (Vocabulary.unindexed checkpoint.vocabulary.labels
      checkpoint.vocabulary.rootLabel).indexed = checkpoint.vocabulary :=
    proper.vocabulary.indexed
  refine (Treebank.Direction.recovers checkpoint.binarization).last ?_
  rw [vocabulary]
  rfl

/-- A checkpoint that is written as a document is read back exactly if all of its numbers are
finite, and equal to it in every part, also in the index of its vocabulary. -/
theorem Checkpoint.decode?_encode {checkpoint : Checkpoint α} (proper : checkpoint.Proper) :
    decode? (checkpoint.encode .exact) =
      if checkpoint.numbers.all Scalar.isFinite then some checkpoint else none :=
  (Checkpoint.recovers proper).eq_ite

/-- A checkpoint of two categories, one of whose substates has no parent. -/
def savedCheckpoint (threshold : Float) : Checkpoint Float where
  model := {
    grammar := {
      substates := [1, 2]
      root := 0
      smoothing := .acrossSiblings 0.125
      threshold
      ancestry := [⟨[some 0]⟩, ⟨[some 0, none]⟩]
      rules := ⟨[(.unary 0 1, ⟨1, 2, 1, #[0.25, 0.5]⟩),
        (.binary 0 1 1, ⟨1, 2, 2, #[0.25, 0, 0, 0]⟩)]⟩ }
    lexicon := {
      substates := [1, 2]
      root := 0
      settings := ⟨.simple, 0.5, 0.25, 10, threshold⟩
      smoothing := .none
      ancestry := [⟨[some 0]⟩, ⟨[some 0, none]⟩]
      tables := {
        tagCounts := [[0], [1.5, 0.5]]
        wordCounts := [[], [("dogs", [1, 0.5]), ("bark", [0.5, 0])]]
        wordTotals := [("dogs", 1.5), ("bark", 0.5)]
        totalTokens := 2
        unseenTagCounts := [[0], [0.5, 0]]
        unseenSignatureCounts := [[], [("UNK", [0.5, 0])]]
        unseenSignatureTotals := [("UNK", 0.5)]
        unseenTotal := 0.5 } } }
  vocabulary := (((Vocabulary.empty "ROOT").intern "ROOT").2.intern "N").2
  substates := [1, 2]
  vertical := 1
  horizontal := 0
  binarization := .right

theorem savedCheckpoint_proper (threshold : Float) : (savedCheckpoint threshold).Proper where
  grammar := {
    substates := by simp [savedCheckpoint, Word.limit]
    root := by simp [savedCheckpoint, Word.limit]
    ordered := by simp [savedCheckpoint, RuleTable.Ordered, Production.before]
    keys := by
      simp [savedCheckpoint, Production.InWords, Production.parent, Production.children, Word.limit]
    blocks := by
      intro entry member
      simp only [savedCheckpoint, List.mem_cons, List.not_mem_nil, or_false] at member
      rcases member with rfl | rfl
      · exact ⟨by decide, by decide, by decide⟩
      · exact ⟨by decide, by decide, by decide⟩
    ancestry := by simp [savedCheckpoint, Ancestry.InWords, Word.greatest, Word.limit] }
  lexicon := {
    substates := by simp [savedCheckpoint, Word.limit]
    root := by simp [savedCheckpoint, Word.limit]
    tables := {
      wordCounts := by simp [savedCheckpoint, NameTable.Distinct]
      wordTotals := by simp [savedCheckpoint, NameTable.Distinct]
      signatureCounts := by simp [savedCheckpoint, NameTable.Distinct]
      signatureTotals := by simp [savedCheckpoint, NameTable.Distinct] }
    ancestry := by simp [savedCheckpoint, Ancestry.InWords, Word.greatest, Word.limit] }
  vocabulary := .intern "N" (.intern "ROOT" (.empty "ROOT"))
  substates := by simp [savedCheckpoint, Word.limit]
  vertical := by simp [savedCheckpoint, Word.limit]
  horizontal := by simp [savedCheckpoint, Word.limit]

/-- The sample is read back, but not if its threshold is infinite. -/
theorem savedCheckpoint_read_back :
    Checkpoint.decode? ((savedCheckpoint 0.0625).encode .exact) = some (savedCheckpoint 0.0625) ∧
      Checkpoint.decode? ((savedCheckpoint (1 / 0)).encode .exact) = none := by
  constructor
  · rw [Checkpoint.decode?_encode (savedCheckpoint_proper _)]
    exact if_pos (by decide)
  · rw [Checkpoint.decode?_encode (savedCheckpoint_proper _)]
    exact if_neg (by decide)

end LatentGrammar
