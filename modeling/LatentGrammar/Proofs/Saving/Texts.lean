import Mathlib
import LatentGrammar.Json.Printer
import LatentGrammar.Json.Reader

namespace LatentGrammar.Json

/-- Nothing but strings in lists and objects, nested in any way. -/
inductive Textual {α : Type} : Json α → Prop where
  | string (text : String) : Textual (.string text)
  | array {items : List (Json α)} (each : ∀ item ∈ items, Textual item) : Textual (.array items)
  | object {fields : List (String × Json α)} (each : ∀ field ∈ fields, Textual field.2) :
    Textual (.object fields)

theorem hexDigits_control : ∀ n < 32,
    hexDigits n = ['0', '0', Nat.digitChar (n / 16), Nat.digitChar (n % 16)] ∧
      hexDigit? (Nat.digitChar (n / 16)) = some (n / 16) ∧
      hexDigit? (Nat.digitChar (n % 16)) = some (n % 16) := by
  decide

theorem scan_code {tokens : List Token} {pieces : List Piece} {high low : Char} {a b : Nat}
    (first : hexDigit? high = some a) (second : hexDigit? low = some b) (rest : List Char) :
    scanAll? tokens (.text pieces) ('\\' :: 'u' :: '0' :: '0' :: high :: low :: rest) =
      scanAll? tokens (.text (.ofCode (16 * a + b) :: pieces)) rest := by
  have zero : hexDigit? '0' = some 0 := by decide
  simp [scanAll?, scan?, zero, first, second]

/-- A character is found again as it was before it was escaped. -/
theorem scan_escape (tokens : List Token) (pieces : List Piece) (c : Char) (rest : List Char) :
    scanAll? tokens (.text pieces) (escape c ++ rest) =
      scanAll? tokens (.text (.char c :: pieces)) rest := by
  unfold escape
  split
  · rfl
  · rfl
  · rfl
  · rfl
  · rfl
  · rename_i quotation backslash _ _ _
    by_cases control : c.toNat < 0x20
    · obtain ⟨digits, high, low⟩ := hexDigits_control c.toNat control
      have code : Piece.ofCode (16 * (c.toNat / 16) + c.toNat % 16) = .char c := by
        have small : ¬0xD800 ≤ c.toNat := by omega
        rw [Nat.div_add_mod, Piece.ofCode]
        simp [small]
      rw [if_pos control, digits]
      exact (scan_code high low rest).trans (by rw [code])
    · have plain : c ≠ '"' ∧ c ≠ '\\' := ⟨quotation, backslash⟩
      simp [scanAll?, scan?, plain, control]

theorem scan_escapes (tokens : List Token) (pieces : List Piece) (chars rest : List Char) :
    scanAll? tokens (.text pieces) (chars.flatMap escape ++ rest) =
      scanAll? tokens (.text ((chars.map Piece.char).reverse ++ pieces)) rest := by
  induction chars generalizing pieces with
  | nil => rfl
  | cons c chars ih =>
    rw [List.flatMap_cons, List.append_assoc, scan_escape, ih]
    simp

theorem joinPieces?_chars (chars after : List Char) :
    joinPieces? after (chars.map Piece.char).reverse = some (chars ++ after) := by
  induction chars using List.reverseRecOn generalizing after with
  | nil => rfl
  | append_singleton chars c ih =>
    rw [List.map_append, List.reverse_append, List.append_assoc]
    exact ih (c :: after)

/-- The text consists of the tokens, wherever it stands between others. -/
def Spells (text : List Char) (tokens : List Token) : Prop :=
  ∀ before rest, scanAll? before .between (text ++ rest) =
    scanAll? (tokens.reverse ++ before) .between rest

theorem Spells.nil : Spells [] [] := fun _ _ => rfl

theorem Spells.append {first second : List Char} {tokens others : List Token}
    (spells : Spells first tokens) (later : Spells second others) :
    Spells (first ++ second) (tokens ++ others) := by
  intro before rest
  rw [List.append_assoc, spells, later, List.reverse_append, List.append_assoc]

theorem spells_quote (text : String) : Spells (quote text).toList [.string (some text)] := by
  intro before rest
  have opened : scanAll? before .between ((quote text).toList ++ rest) =
      scanAll? before (.text []) (text.toList.flatMap escape ++ '"' :: rest) := by
    simp [quote, scanAll?, scan?, start?]
  have whole := joinPieces?_chars text.toList []
  rw [opened, scan_escapes]
  simp only [List.append_nil] at whole ⊢
  simp [scanAll?, scan?, whole]

theorem spells_openList : Spells ['['] [.openList] := fun _ _ => rfl

theorem spells_closeList : Spells [']'] [.closeList] := fun _ _ => rfl

theorem spells_openObject : Spells ['\x7b'] [.openObject] := fun _ _ => rfl

theorem spells_closeObject : Spells ['\x7d'] [.closeObject] := fun _ _ => rfl

theorem spells_colon : Spells [':'] [.colon] := fun _ _ => rfl

theorem spells_comma : Spells [','] [.comma] := fun _ _ => rfl

/-- Read where a value may stand, the tokens come to the document, whatever is still open. -/
def Gives (tokens : List Token) (json : Json Float) : Prop :=
  ∀ first stack done, tokens.foldlM Reader.step? ⟨.value first, stack, done⟩ =
    some (Reader.give ⟨.next, stack, done⟩ json)

/-- The text of the document consists of tokens that come to the document. -/
def ReadsBack (json : Json Float) : Prop :=
  ∃ tokens, Spells json.render.toList tokens ∧ Gives tokens json

theorem readsBack_string (text : String) : ReadsBack (.string text) :=
  ⟨_, spells_quote text, fun _ _ _ => rfl⟩

/-- The items that are left of a list, each behind a comma, and the end of the list. -/
theorem exists_tokens_items {items : List (Json Float)} (each : ∀ item ∈ items, ReadsBack item) :
    ∃ tokens, Spells (renderItems false items).toList tokens ∧ ∀ read stack done,
      (tokens ++ [Token.closeList]).foldlM Reader.step? ⟨.next, .list read :: stack, done⟩ =
        some (Reader.give ⟨.next, stack, done⟩ (.array (read.reverse ++ items))) := by
  induction items with
  | nil => exact ⟨[], .nil, fun read stack done => by rw [List.append_nil]; rfl⟩
  | cons item rest ih =>
    obtain ⟨here, later⟩ := List.forall_mem_cons.mp each
    obtain ⟨tokens, spelled, gives⟩ := here
    obtain ⟨others, spelledRest, comes⟩ := ih later
    refine ⟨.comma :: (tokens ++ others), ?_, fun read stack done => ?_⟩
    · simpa [renderItems] using (spells_comma.append spelled).append spelledRest
    · have ends := comes (item :: read) stack done
      rw [List.reverse_cons, List.append_assoc, List.singleton_append] at ends
      rw [List.cons_append, List.append_assoc, List.foldlM_cons]
      show (tokens ++ (others ++ [Token.closeList])).foldlM Reader.step?
        ⟨.value false, .list read :: stack, done⟩ = _
      rw [List.foldlM_append, gives]
      exact ends

theorem readsBack_array {items : List (Json Float)} (each : ∀ item ∈ items, ReadsBack item) :
    ReadsBack (.array items) := by
  cases items with
  | nil => exact ⟨_, spells_openList.append spells_closeList, fun _ _ _ => rfl⟩
  | cons item rest =>
    obtain ⟨here, later⟩ := List.forall_mem_cons.mp each
    obtain ⟨tokens, spelled, gives⟩ := here
    obtain ⟨others, spelledRest, comes⟩ := exists_tokens_items later
    refine ⟨.openList :: (tokens ++ (others ++ [.closeList])), ?_, fun first stack done => ?_⟩
    · simpa [render, renderItems] using
        ((spells_openList.append spelled).append spelledRest).append spells_closeList
    · rw [List.foldlM_cons]
      show (tokens ++ (others ++ [Token.closeList])).foldlM Reader.step?
        ⟨.value true, .list [] :: stack, done⟩ = _
      rw [List.foldlM_append, gives]
      exact comes [item] stack done

/-- Names that were read as texts. -/
def named (fields : List (String × Json Float)) : List (Option String × Json Float) :=
  fields.map fun (name, value) => (some name, value)

theorem object_named (fields : List (String × Json Float)) :
    Reader.object (named fields) = .object fields.reverse := by
  have names : (named fields).reverse.mapM (fun field => do some (← field.1, field.2)) =
      some fields.reverse := by
    rw [named, ← List.map_reverse]
    induction fields.reverse with
    | nil => rfl
    | cons field rest ih =>
      rw [List.map_cons, List.mapM_cons, ih]
      rfl
  unfold Reader.object
  split
  · rename_i read found
    rw [Option.some.inj (names.symm.trans found)]
  · rename_i unread
    exact nomatch names.symm.trans unread

/-- The fields that are left of an object, each behind a comma, and the end of the object. -/
theorem exists_tokens_fields {fields : List (String × Json Float)}
    (each : ∀ field ∈ fields, ReadsBack field.2) :
    ∃ tokens, Spells (renderFields false fields).toList tokens ∧ ∀ read stack done,
      (tokens ++ [Token.closeObject]).foldlM Reader.step?
          ⟨.next, .object (named read) none :: stack, done⟩ =
        some (Reader.give ⟨.next, stack, done⟩ (.object (read.reverse ++ fields))) := by
  induction fields with
  | nil =>
    refine ⟨[], .nil, fun read stack done => ?_⟩
    rw [List.append_nil, ← object_named]
    rfl
  | cons field rest ih =>
    obtain ⟨here, later⟩ := List.forall_mem_cons.mp each
    obtain ⟨tokens, spelled, gives⟩ := here
    obtain ⟨others, spelledRest, comes⟩ := ih later
    refine ⟨.comma :: .string (some field.1) :: .colon :: (tokens ++ others), ?_,
      fun read stack done => ?_⟩
    · simpa [renderFields] using (((spells_comma.append (spells_quote field.1)).append
        spells_colon).append spelled).append spelledRest
    · have ends := comes (field :: read) stack done
      rw [List.reverse_cons, List.append_assoc, List.singleton_append] at ends
      simp only [List.cons_append, List.append_assoc]
      show (tokens ++ (others ++ [Token.closeObject])).foldlM Reader.step?
        ⟨.value false, .object (named read) (some field.1) :: stack, done⟩ = _
      rw [List.foldlM_append, gives]
      exact ends

theorem readsBack_object {fields : List (String × Json Float)}
    (each : ∀ field ∈ fields, ReadsBack field.2) : ReadsBack (.object fields) := by
  cases fields with
  | nil => exact ⟨_, spells_openObject.append spells_closeObject, fun _ _ _ => rfl⟩
  | cons field rest =>
    obtain ⟨here, later⟩ := List.forall_mem_cons.mp each
    obtain ⟨tokens, spelled, gives⟩ := here
    obtain ⟨others, spelledRest, comes⟩ := exists_tokens_fields later
    refine ⟨.openObject :: .string (some field.1) :: .colon
      :: (tokens ++ (others ++ [.closeObject])), ?_, fun first stack done => ?_⟩
    · simpa [render, renderFields] using (((((spells_openObject.append
        (spells_quote field.1)).append spells_colon).append spelled).append spelledRest).append
        spells_closeObject)
    · show (tokens ++ (others ++ [Token.closeObject])).foldlM Reader.step?
        ⟨.value false, .object [] (some field.1) :: stack, done⟩ = _
      rw [List.foldlM_append, gives]
      exact comes [field] stack done

/-- One case for each way in which a document of texts is put together. -/
theorem Textual.readsBack {json : Json Float} (textual : json.Textual) : ReadsBack json := by
  induction textual with
  | string text => exact readsBack_string text
  | array _ each => exact readsBack_array each
  | object _ each => exact readsBack_object each

/-- A document of texts is read back from the text that it is written as. -/
theorem Textual.read?_render {json : Json Float} (textual : json.Textual) :
    read? json.render = some json := by
  obtain ⟨tokens, spelled, gives⟩ := textual.readsBack
  have scanned : tokens? json.render = some tokens := by
    have all := spelled [] []
    rw [List.append_nil] at all
    rw [tokens?, all]
    simp [scanAll?, endScan?]
  rw [read?, scanned]
  simp [gives false [] none, Reader.give]

end LatentGrammar.Json
