import Mathlib
import LatentGrammar.Treebank.Reader

/-! The bracket grammar, and the reader measured against it. The reader accepts the sequences of
constituents and nothing else; otherwise it blames the first token with which no such sequence goes
on, or the end of a text that breaks off inside a constituent. -/

namespace LatentGrammar.Treebank

mutual

/-- The tokens that a constituent is written with: parentheses around a label and any items, or around
a constituent and any items where there is no label. -/
inductive Constituent (keepFunctions : Bool) : List Token → Tree → Prop where
  | labelled {text : String} {items : List Token} {children : List Tree}
      (inside : Items keepFunctions items children) :
      Constituent keepFunctions (.opening :: .word text :: (items ++ [.closing]))
        (.node (plainLabel keepFunctions text) children)
  | unlabelled {first items : List Token} {child : Tree} {children : List Tree}
      (head : Constituent keepFunctions first child) (inside : Items keepFunctions items children) :
      Constituent keepFunctions (.opening :: (first ++ items ++ [.closing]))
        (.node "" (child :: children))

/-- The tokens of words and constituents in any order. -/
inductive Items (keepFunctions : Bool) : List Token → List Tree → Prop where
  | nil : Items keepFunctions [] []
  | word {text : String} {items : List Token} {children : List Tree}
      (later : Items keepFunctions items children) :
      Items keepFunctions (.word text :: items) (.leaf text :: children)
  | constituent {first items : List Token} {child : Tree} {children : List Tree}
      (head : Constituent keepFunctions first child) (later : Items keepFunctions items children) :
      Items keepFunctions (first ++ items) (child :: children)

end

/-- The tokens of a sequence of constituents, which may be empty. -/
inductive Bracketing (keepFunctions : Bool) : List Token → List Tree → Prop where
  | nil : Bracketing keepFunctions [] []
  | cons {first rest : List Token} {tree : Tree} {trees : List Tree}
      (head : Constituent keepFunctions first tree) (later : Bracketing keepFunctions rest trees) :
      Bracketing keepFunctions (first ++ rest) (tree :: trees)

/-- Some sequence of constituents starts with these tokens. -/
def Viable (keepFunctions : Bool) (tokens : List Token) : Prop :=
  ∃ more trees, Bracketing keepFunctions (tokens ++ more) trees

/-- The position of the first token with which no sequence of constituents goes on; or the end, where
every token has its place but some constituent is not complete. -/
def Blamed (keepFunctions : Bool) (tokens : List Token) (position : Nat) : Prop :=
  IsLeast {p | p < tokens.length ∧ ¬Viable keepFunctions (tokens.take (p + 1))} position ∨
    (position = tokens.length ∧ Viable keepFunctions tokens ∧
      ¬∃ trees, Bracketing keepFunctions tokens trees)

/-- A result that there is exactly for sequences of constituents, or else blames the right token. -/
structure Judges {β : Type} (keepFunctions : Bool) (tokens : List Token)
    (result : Except Fault β) : Prop where
  accepts : (∃ value, result = .ok value) ↔ ∃ trees, Bracketing keepFunctions tokens trees
  blames : ∀ fault, result = .error fault →
    ∃ position cause, fault = .treebank position cause ∧ Blamed keepFunctions tokens position

variable {keepFunctions : Bool} {place next last : Place} {token : Token} {tokens : List Token}
  {trees : List Tree}

/-- The reader gets from one place to another with some tokens, and completes some trees. -/
inductive Leads (keepFunctions : Bool) : Place → List Token → Place → List Tree → Prop where
  | stay (place : Place) : Leads keepFunctions place [] place []
  | step {place next last : Place} {token : Token} {rest : List Token} {complete : Option Tree}
      {trees : List Tree} (here : place.step keepFunctions token = .ok (next, complete))
      (later : Leads keepFunctions next rest last trees) :
      Leads keepFunctions place (token :: rest) last (complete.toList ++ trees)

namespace Leads

theorem append {middle : Place} {before after : List Token} {first second : List Tree}
    (left : Leads keepFunctions place before middle first)
    (right : Leads keepFunctions middle after last second) :
    Leads keepFunctions place (before ++ after) last (first ++ second) := by
  induction left with
  | stay => exact right
  | step here _ ih =>
    rw [List.cons_append, List.append_assoc]
    exact .step here (ih right)

/-- A step that completes no tree. -/
theorem silent {rest : List Token} (here : place.step keepFunctions token = .ok (next, none))
    (later : Leads keepFunctions next rest last trees) :
    Leads keepFunctions place (token :: rest) last trees := .step here later

theorem readFrom (leads : Leads keepFunctions place tokens last trees) (position : Nat)
    (rest : List Token) :
    readFrom keepFunctions position place (tokens ++ rest) =
      (readFrom keepFunctions (position + tokens.length) last rest).map (trees ++ ·) := by
  induction leads generalizing position with
  | stay place =>
    show _ = Except.map id _
    rw [Except.map_id]
    rfl
  | @step _ _ last _ tail complete _ here _ ih =>
    have shifted : position + 1 + tail.length = position + (tail.length + 1) := by omega
    simp only [List.cons_append, Treebank.readFrom, here, ih, shifted, List.length_cons]
    cases Treebank.readFrom keepFunctions (position + (tail.length + 1)) last rest with
    | error fault => rfl
    | ok later => simp [Except.map]

end Leads

/-- Every token is read, or some token cannot be read where those before it lead. -/
theorem leads_or_stuck (keepFunctions : Bool) (place : Place) (tokens : List Token) :
    (∃ last trees, Leads keepFunctions place tokens last trees) ∨
      ∃ before token after last trees cause, tokens = before ++ token :: after ∧
        Leads keepFunctions place before last trees ∧
          last.step keepFunctions token = .error cause := by
  induction tokens generalizing place with
  | nil => exact .inl ⟨place, [], .stay place⟩
  | cons token rest ih =>
    cases here : place.step keepFunctions token with
    | error cause => exact .inr ⟨[], token, rest, place, [], cause, rfl, .stay place, here⟩
    | ok result =>
      obtain ⟨next, complete⟩ := result
      rcases ih next with ⟨last, trees, leads⟩ | ⟨before, other, after, last, trees, cause, stuck⟩
      · exact .inl ⟨last, _, .step here leads⟩
      · obtain ⟨rfl, leads, refused⟩ := stuck
        exact .inr ⟨token :: before, other, after, last, _, cause, rfl, .step here leads, refused⟩

/-- Where the reader is after a constituent inside some open ones, and the tree that is complete. -/
def Place.completed : List Frame → Tree → Place × Option Tree
  | [], tree => (outside, some tree)
  | outer :: above, tree => (within (outer.push tree) above, none)

theorem Leads.closing (frame : Frame) (above : List Frame) {tree : Tree} (same : frame.close = tree) :
    Leads keepFunctions (.within frame above) [.closing] (Place.completed above tree).1
      (Place.completed above tree).2.toList := by
  have closed : (Place.within frame above).step keepFunctions .closing =
      .ok ((Place.completed above tree).1, (Place.completed above tree).2) := by
    subst same
    cases above <;> rfl
  simpa only [List.append_nil] using Leads.step closed (.stay _)

mutual

/-- A constituent is read from its opening parenthesis to its closing one, whatever is open around
it. -/
theorem Constituent.leads {tokens : List Token} {tree : Tree}
    (constituent : Constituent keepFunctions tokens tree) :
    ∃ inner, tokens = .opening :: inner ∧ ∀ above, Leads keepFunctions (.opened above) inner
      (Place.completed above tree).1 (Place.completed above tree).2.toList := by
  cases constituent with
  | labelled inside =>
    refine ⟨_, rfl, fun above => .silent rfl ((inside.leads _ above).append (.closing _ above ?_))⟩
    simp [Frame.close]
  | unlabelled head inside =>
    obtain ⟨inner, rfl, leads⟩ := head.leads
    refine ⟨_, rfl, fun above => ?_⟩
    rw [List.append_assoc, List.cons_append]
    refine .silent rfl ((leads (⟨"", []⟩ :: above)).append ((inside.leads _ above).append ?_))
    exact .closing _ above (by simp [Frame.close, Frame.push])

theorem Items.leads {items : List Token} {children : List Tree}
    (inside : Items keepFunctions items children) (frame : Frame) (above : List Frame) :
    Leads keepFunctions (.within frame above) items
      (.within ⟨frame.label, children.reverse ++ frame.children⟩ above) [] := by
  cases inside with
  | nil => exact .stay _
  | word later =>
    refine .silent rfl ?_
    simpa [Frame.push] using later.leads _ above
  | constituent head later =>
    obtain ⟨inner, rfl, leads⟩ := head.leads
    refine .silent rfl ((leads (frame :: above)).append ?_)
    simpa [Place.completed, Frame.push] using later.leads _ above

end

theorem Bracketing.leads (bracketing : Bracketing keepFunctions tokens trees) :
    Leads keepFunctions .outside tokens .outside trees := by
  induction bracketing with
  | nil => exact .stay _
  | cons head _ ih =>
    obtain ⟨inner, rfl, leads⟩ := head.leads
    exact .silent rfl ((leads []).append ih)

/-- The tokens go on with the items of the open constituents, each with its closing parenthesis, after
some tree was completed inside them, and then with further constituents. -/
def Continues (keepFunctions : Bool) : List Frame → Tree → List Token → List Tree → Prop
  | [], tree, tokens, trees => ∃ later, trees = tree :: later ∧ Bracketing keepFunctions tokens later
  | outer :: above, tree, tokens, trees => ∃ items children rest,
      tokens = items ++ .closing :: rest ∧ Items keepFunctions items children ∧
        Continues keepFunctions above
          (.node outer.label ((outer.push tree).children.reverse ++ children)) rest trees

/-- The tokens complete all that is open at a place. -/
def Completes (keepFunctions : Bool) : Place → List Token → List Tree → Prop
  | .outside, tokens, trees => Bracketing keepFunctions tokens trees
  | .opened above, tokens, trees => ∃ inner tree rest, tokens = inner ++ rest ∧
      Constituent keepFunctions (.opening :: inner) tree ∧
        Continues keepFunctions above tree rest trees
  | .within frame above, tokens, trees => ∃ items children rest,
      tokens = items ++ .closing :: rest ∧ Items keepFunctions items children ∧
        Continues keepFunctions above (.node frame.label (frame.children.reverse ++ children)) rest
          trees

/-- What completes the next place completes the place before a token along with the token. -/
theorem Completes.step {complete : Option Tree}
    (here : place.step keepFunctions token = .ok (next, complete))
    (completes : Completes keepFunctions next tokens trees) :
    Completes keepFunctions place (token :: tokens) (complete.toList ++ trees) := by
  cases place with
  | outside =>
    cases token with
    | opening =>
      cases here
      obtain ⟨inner, tree, rest, rfl, constituent, later, rfl, bracketing⟩ := completes
      exact .cons constituent bracketing
    | closing => cases here
    | word text => cases here
  | opened above =>
    cases token with
    | opening =>
      cases here
      obtain ⟨inner, tree, rest, rfl, head, items, children, after, rfl, inside, later⟩ := completes
      refine ⟨.opening :: inner ++ items ++ [.closing], _, after, ?_, .unlabelled head inside, later⟩
      simp
    | closing => cases here
    | word text =>
      cases here
      obtain ⟨items, children, rest, rfl, inside, later⟩ := completes
      refine ⟨.word text :: (items ++ [.closing]), _, rest, ?_, .labelled inside, later⟩
      simp
  | within frame above =>
    cases token with
    | opening =>
      cases here
      obtain ⟨inner, tree, rest, rfl, head, items, children, after, rfl, inside, later⟩ := completes
      refine ⟨.opening :: inner ++ items, tree :: children, after, ?_, .constituent head inside, ?_⟩
      · simp
      · simpa [Frame.push] using later
    | closing =>
      refine ⟨[], [], tokens, rfl, .nil, ?_⟩
      rw [List.append_nil]
      cases above with
      | nil =>
        cases here
        exact ⟨trees, rfl, completes⟩
      | cons outer above =>
        cases here
        exact completes
    | word text =>
      cases here
      obtain ⟨items, children, rest, rfl, inside, later⟩ := completes
      refine ⟨.word text :: items, .leaf text :: children, rest, rfl, .word inside, ?_⟩
      simpa [Frame.push] using later

theorem Leads.completes (leads : Leads keepFunctions place tokens last trees)
    (outside : last = .outside) : Completes keepFunctions place tokens trees := by
  induction leads with
  | stay =>
    subst outside
    exact .nil
  | step here _ ih => exact .step here (ih outside)

theorem bracketing_iff_leads : Bracketing keepFunctions tokens trees ↔
    Leads keepFunctions .outside tokens .outside trees :=
  ⟨Bracketing.leads, fun leads => leads.completes rfl⟩

theorem Place.leads_outside (keepFunctions : Bool) (place : Place) :
    ∃ more trees, Leads keepFunctions place more .outside trees := by
  have closes (frame : Frame) (above : List Frame) :
      ∃ more trees, Leads keepFunctions (within frame above) more .outside trees := by
    induction above generalizing frame with
    | nil => exact ⟨_, _, .closing frame [] rfl⟩
    | cons outer above ih =>
      obtain ⟨more, trees, leads⟩ := ih (outer.push frame.close)
      exact ⟨_, _, (Leads.closing frame (outer :: above) rfl).append leads⟩
  cases place with
  | outside => exact ⟨[], [], .stay _⟩
  | opened above =>
    obtain ⟨more, trees, leads⟩ := closes ⟨plainLabel keepFunctions "", []⟩ above
    exact ⟨.word "" :: more, trees, .silent rfl leads⟩
  | within frame above => exact closes frame above

theorem Leads.viable (leads : Leads keepFunctions .outside tokens last trees) :
    Viable keepFunctions tokens := by
  obtain ⟨more, later, rest⟩ := last.leads_outside keepFunctions
  exact ⟨more, _, bracketing_iff_leads.mpr (leads.append rest)⟩

theorem Viable.take (viable : Viable keepFunctions tokens) (count : Nat) :
    Viable keepFunctions (tokens.take count) := by
  obtain ⟨more, trees, bracketing⟩ := viable
  refine ⟨tokens.drop count ++ more, trees, ?_⟩
  rwa [← List.append_assoc, List.take_append_drop]

theorem readNodes_of_bracketing (bracketing : Bracketing keepFunctions tokens trees) :
    readNodes keepFunctions tokens = .ok trees := by
  have read := bracketing.leads.readFrom 0 []
  rw [List.append_nil] at read
  simpa [readNodes, Treebank.readFrom, Place.endFault?, Except.map] using read

/-- The reader stops at the token that cannot be read. -/
theorem readNodes_of_stuck {before after : List Token} {cause : SyntaxFault}
    (leads : Leads keepFunctions .outside before last trees)
    (refused : last.step keepFunctions token = .error cause) :
    readNodes keepFunctions (before ++ token :: after) =
      .error (.treebank before.length cause) := by
  rw [readNodes, leads.readFrom, Treebank.readFrom, refused, Nat.zero_add]
  rfl

/-- The reader stops at the end if some constituent is not complete. -/
theorem readNodes_of_unfinished {cause : SyntaxFault}
    (leads : Leads keepFunctions .outside tokens last trees)
    (unfinished : last.endFault? = some cause) :
    readNodes keepFunctions tokens = .error (.treebank tokens.length cause) := by
  have read := leads.readFrom 0 []
  rw [List.append_nil, Treebank.readFrom, unfinished, Nat.zero_add] at read
  exact read

/-- A token that cannot be read where those before it lead is the first one that has no place. -/
theorem blamed_of_stuck {before after : List Token} {cause : SyntaxFault}
    (leads : Leads keepFunctions .outside before last trees)
    (refused : last.step keepFunctions token = .error cause) :
    Blamed keepFunctions (before ++ token :: after) before.length := by
  refine .inl ⟨⟨by simp, ?_⟩, fun p ⟨_, dead⟩ => ?_⟩
  · have start : (before ++ token :: after).take (before.length + 1) = before ++ [token] := by
      simp [List.take_append]
    rintro ⟨more, all, bracketing⟩
    rw [start, List.append_assoc] at bracketing
    have accepted := readNodes_of_bracketing bracketing
    rw [List.singleton_append, readNodes_of_stuck leads refused] at accepted
    cases accepted
  · by_contra early
    have start : (before ++ token :: after).take (p + 1) = before.take (p + 1) :=
      List.take_append_of_le_length (by omega)
    rw [start] at dead
    exact dead (leads.viable.take _)

theorem blamed_of_unfinished {cause : SyntaxFault}
    (leads : Leads keepFunctions .outside tokens last trees)
    (unfinished : last.endFault? = some cause) : Blamed keepFunctions tokens tokens.length := by
  refine .inr ⟨rfl, leads.viable, ?_⟩
  rintro ⟨all, bracketing⟩
  have accepted := readNodes_of_bracketing bracketing
  rw [readNodes_of_unfinished leads unfinished] at accepted
  cases accepted

/-- The reader completes a sequence of constituents, or else blames a token. -/
theorem readNodes_cases (keepFunctions : Bool) (tokens : List Token) :
    (∃ trees, Bracketing keepFunctions tokens trees) ∨ ∃ position cause,
      readNodes keepFunctions tokens = .error (.treebank position cause) ∧
        Blamed keepFunctions tokens position := by
  rcases leads_or_stuck keepFunctions .outside tokens with
    ⟨last, trees, leads⟩ | ⟨before, token, after, last, trees, cause, rfl, leads, refused⟩
  · cases ended : last.endFault? with
    | none =>
      obtain rfl : last = .outside := by cases last <;> simp_all [Place.endFault?]
      exact .inl ⟨trees, bracketing_iff_leads.mpr leads⟩
    | some cause =>
      exact .inr ⟨_, cause, readNodes_of_unfinished leads ended, blamed_of_unfinished leads ended⟩
  · exact .inr ⟨_, cause, readNodes_of_stuck leads refused, blamed_of_stuck leads refused⟩

theorem readNodes_eq_ok_iff :
    readNodes keepFunctions tokens = .ok trees ↔ Bracketing keepFunctions tokens trees := by
  constructor
  · intro success
    rcases readNodes_cases keepFunctions tokens with ⟨all, bracketing⟩ | ⟨position, cause, failure, -⟩
    · rw [readNodes_of_bracketing bracketing] at success
      cases success
      exact bracketing
    · rw [failure] at success
      cases success
  · exact readNodes_of_bracketing

theorem readNodes_judges (keepFunctions : Bool) (tokens : List Token) :
    Judges keepFunctions tokens (readNodes keepFunctions tokens) where
  accepts := by simp only [readNodes_eq_ok_iff]
  blames fault failure := by
    rcases readNodes_cases keepFunctions tokens with ⟨all, bracketing⟩ | ⟨position, cause, blamed⟩
    · rw [readNodes_of_bracketing bracketing] at failure
      cases failure
    · obtain ⟨failed, blamed⟩ := blamed
      rw [failed] at failure
      cases failure
      exact ⟨position, cause, rfl, blamed⟩

theorem Judges.map {β γ : Type} {result : Except Fault β} (f : β → γ)
    (judges : Judges keepFunctions tokens result) :
    Judges keepFunctions tokens (result.map f) := by
  obtain ⟨accepts, blames⟩ := judges
  cases result with
  | error fault =>
    refine ⟨by simpa [Except.map] using accepts, fun other failure => ?_⟩
    cases failure
    exact blames fault rfl
  | ok value => exact ⟨by simpa [Except.map] using accepts, fun fault failure => by cases failure⟩

/-- Of any tokens, exactly the sequences of constituents are read, to the last token and as the trees
that they are written for; of other tokens the right one is blamed. The same holds of a text and its
tokens, whatever is done to the trees afterwards. -/
theorem reader_judges_brackets (keepFunctions : Bool) :
    (∀ tokens, Judges keepFunctions tokens (readNodes keepFunctions tokens) ∧
      ∀ trees, readNodes keepFunctions tokens = .ok trees ↔
        Bracketing keepFunctions tokens trees) ∧
    ∀ root text, Judges keepFunctions (Token.scan text) (read root text keepFunctions) :=
  ⟨fun tokens => ⟨readNodes_judges keepFunctions tokens, fun _ => readNodes_eq_ok_iff⟩,
    fun _ text => (readNodes_judges keepFunctions (Token.scan text)).map _⟩

example : readNodes false (Token.scan "(S (NP (DT a)") = .error (.treebank 8 .unbalanced) := by
  rfl

end LatentGrammar.Treebank
