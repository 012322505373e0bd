import Mathlib.Data.List.Forall2
import Highlight.Output.Format
import Highlight.Proofs.Output.JsonReader
import Highlight.Proofs.Text.Digits

/-!
# Tokens come back from JSON

What is written as JSON is read back by a reader for all of the format. Strings and numbers are read back from their
text, a value gives the lexemes it is written with (`Json.lexes_write`), and from these the machine builds the value
(`Json.runs_lexemes`); so a text is read as the value it was written from (`Json.read?_text`).

A token is taken from an object by the names of its members. The label may be missing, and so may the children. Tokens
come back from their objects at every depth (`Token.ofValue?_toJson`), and so the tokens of a text come back from the
JSON form (`Format.readList?_render_json`).
-/

namespace Highlight

open JsonValue

namespace Json

/-! ## Strings -/

theorem codePoints?_stringChar (c : Char) (cs : List Char) :
    codePoints? (stringChar c ++ cs) =
      (codePoints? cs).map fun (ns, rest) => (c.toNat :: ns, rest) := by
  unfold stringChar
  split_ifs with hquote hslash hn hr ht hb hf hcontrol
  · rw [hquote]; rfl
  · rw [hslash]; rfl
  · rw [hn]; rfl
  · rw [hr]; rfl
  · rw [ht]; rfl
  · rw [hb]; rfl
  · rw [hf]; rfl
  · have hdigits : ∀ n < 0x20,
        Regex.hexNumber? ['0', '0', hexDigit (n / 16), hexDigit (n % 16)] = some n := by decide
    rw [List.cons_append, List.cons_append, List.cons_append, List.cons_append, List.cons_append,
      List.cons_append, codePoints?, hdigits _ hcontrol, Option.bind_some, List.nil_append]
  · rw [List.singleton_append, codePoints?, if_neg (by simp [hslash, hcontrol])]
    all_goals simp [hquote, hslash]

theorem codePoints?_flatMap_stringChar (cs rest : List Char) :
    codePoints? (cs.flatMap stringChar ++ '"' :: rest) = some (cs.map Char.toNat, rest) := by
  induction cs with
  | nil => rfl
  | cons c cs ih =>
    rw [List.flatMap_cons, List.append_assoc, codePoints?_stringChar, ih, Option.map_some,
      List.map_cons]

theorem characters?_map_toNat (cs : List Char) : characters? (cs.map Char.toNat) = some cs := by
  induction cs with
  | nil => rfl
  | cons c cs ih =>
    have hvalid : c.toNat < 0xD800 ∨ 0xDFFF < c.toNat ∧ c.toNat < 0x110000 := c.valid
    rw [List.map_cons, characters?.eq_def]
    dsimp only
    rw [if_neg (by omega), charAt?_toNat, Option.bind_some, ih,
      Option.map_some]

/-- **A string is read back from its text.** -/
theorem string?_stringText (text : String) (rest : List Char) :
    ∃ cs, stringText text ++ rest = '"' :: cs ∧ string? cs = some (text, rest) := by
  refine ⟨text.toList.flatMap stringChar ++ '"' :: rest, ?_, ?_⟩
  · rw [stringText, List.cons_append, List.append_assoc, List.singleton_append]
  · simp only [string?, codePoints?_flatMap_stringChar, Option.bind_some, characters?_map_toNat,
      Option.map_some, String.ofList_toList]

/-! ## Numbers -/

theorem decimal?_toDigits (n : Nat) : decimal? (Nat.toDigits 10 n) = some ⟨n, 0⟩ := by
  obtain ⟨d, ds, hcons⟩ := List.exists_cons_of_ne_nil (Nat.toDigits_ne_nil (n := n) (b := 10))
  have hd : d.isDigit = true := isDigit_of_mem_toDigits (n := n) (hcons ▸ List.mem_cons_self)
  have hall : ∀ c ∈ Nat.toDigits 10 n, c.isDigit = true := fun c => isDigit_of_mem_toDigits
  have hnil : ∀ c ∈ ([] : List Char).head?, c.isDigit = false := nofun
  have hspan := span_append hall hnil
  rw [List.append_nil] at hspan
  have hzero : (Nat.toDigits 10 n).head? = some '0' → (Nat.toDigits 10 n).length = 1 := by
    intro h
    have hn : n = 0 := by
      by_contra hne
      exact head?_toDigits_ne hne h
    rw [hn]
    rfl
  have hdigits : isDigits (Nat.toDigits 10 n) = true := by
    rw [isDigits, Bool.and_eq_true]
    exact ⟨by simp [Nat.toDigits_ne_nil], List.all_eq_true.2 hall⟩
  have hmagnitude : magnitude? (Nat.toDigits 10 n) = some ⟨n, 0⟩ := by
    simp only [magnitude?, hspan.1, hspan.2, if_pos (And.intro hdigits hzero), fraction?,
      exponent?, Option.bind_some, Option.map_some, List.append_nil, Nat.ofDigitChars_ten_toDigits,
      List.length_nil]
    rfl
  rw [← hmagnitude, hcons, decimal?]
  rintro cs h
  obtain rfl := (List.cons.inj h).1
  exact absurd hd (by decide)

/-! ## Lexemes -/

/-- The lexemes of items between a pair of brackets -/
def blockLexemes (opening closing : Lexeme) : List (List Lexeme) → List Lexeme
  | [] => [opening, closing]
  | item :: more => opening :: (item ++ (more.flatMap (.comma :: ·) ++ [closing]))

mutual

/-- The lexemes that a value is written with. -/
def lexemes : Json → List Lexeme
  | number n => [.number ⟨n, 0⟩]
  | string text => [.string text]
  | array elements => blockLexemes .openArray .closeArray (elementLexemes elements)
  | object members => blockLexemes .openObject .closeObject (memberLexemes members)

def elementLexemes : List Json → List (List Lexeme)
  | [] => []
  | v :: vs => lexemes v :: elementLexemes vs

def memberLexemes : List (String × Json) → List (List Lexeme)
  | [] => []
  | (name, v) :: more => (.string name :: .colon :: lexemes v) :: memberLexemes more

end

/-- The text `cs` is read as the lexemes `ls`, if no word goes on behind it. -/
def Lexes (cs : List Char) (ls : List Lexeme) : Prop :=
  ∀ rest, (∀ c ∈ rest.head?, isWordPart c = false) →
    lexemes? (cs ++ rest) = (lexemes? rest).map (ls ++ ·)

variable {cs : List Char} {ls : List Lexeme}

theorem lexes_nil : Lexes [] [] := by
  intro rest _
  simp

theorem Lexes.append {ds : List Char} {ms : List Lexeme} (hcs : Lexes cs ls) (hds : Lexes ds ms)
    (hhead : ∀ c ∈ ds.head?, isWordPart c = false) : Lexes (cs ++ ds) (ls ++ ms) := by
  intro rest hrest
  have hnext : ∀ c ∈ (ds ++ rest).head?, isWordPart c = false := by
    cases ds with
    | nil => exact hrest
    | cons d ds => exact hhead
  rw [List.append_assoc, hcs _ hnext, hds _ hrest, Option.map_map]
  simp [Function.comp_def]

theorem Lexes.cons_space {c : Char} (hc : isSpace c = true) (h : Lexes cs ls) :
    Lexes (c :: cs) ls := by
  intro rest hrest
  rw [List.cons_append, lexemes?, if_pos hc, h _ hrest]

theorem Lexes.newLine_append (depth : Nat) (h : Lexes cs ls) : Lexes (newLine depth ++ cs) ls := by
  have hspaces : ∀ n, Lexes (List.replicate n ' ' ++ cs) ls := by
    intro n
    induction n with
    | zero => exact h
    | succ n ih => exact ih.cons_space rfl
  exact (hspaces (2 * depth)).cons_space rfl

theorem Lexes.cons_mark {c : Char} {mark : Lexeme}
    (hc : isSpace c = false ∧ c ≠ '"' ∧ mark? c = some mark) (h : Lexes cs ls) :
    Lexes (c :: cs) (mark :: ls) := by
  intro rest hrest
  obtain ⟨hspace, hquote, hmark⟩ := hc
  rw [List.cons_append, lexemes?, if_neg (by rw [hspace]; decide), if_neg hquote, hmark]
  simp [h _ hrest, Function.comp_def]

theorem Lexes.string_append (text : String) (h : Lexes cs ls) :
    Lexes (stringText text ++ cs) (.string text :: ls) := by
  intro rest hrest
  obtain ⟨ds, hds, hread⟩ := string?_stringText text (cs ++ rest)
  rw [List.append_assoc, hds, lexemes?, if_neg (by decide), if_pos rfl]
  split
  · next hnone => rw [hread] at hnone; cases hnone
  · next hsome =>
    rw [hread] at hsome
    obtain ⟨rfl, rfl⟩ := Prod.mk.inj (Option.some.inj hsome)
    simp [h _ hrest, Function.comp_def]

theorem of_isDigit {c : Char} (h : c.isDigit = true) :
    isSpace c = false ∧ c ≠ '"' ∧ mark? c = none ∧ isWordPart c = true := by
  have hne : ∀ d : Char, d.isDigit = false → c ≠ d := by
    rintro d hd rfl
    rw [hd] at h
    cases h
  refine ⟨?_, hne _ rfl, ?_, ?_⟩
  · simp [isSpace, hne ' ' rfl, hne '\t' rfl, hne '\n' rfl, hne '\r' rfl]
  · simp [mark?, hne '[' rfl, hne ']' rfl, hne '\x7b' rfl, hne '\x7d' rfl, hne ',' rfl, hne ':' rfl]
  · simp [isWordPart, Char.isAlphanum, h]

theorem word?_toDigits (n : Nat) : word? (Nat.toDigits 10 n) = some (.number ⟨n, 0⟩) := by
  have hne : ∀ cs : List Char, cs.all Char.isDigit = false → Nat.toDigits 10 n ≠ cs := by
    rintro cs hcs rfl
    rw [List.all_eq_true.2 fun c => isDigit_of_mem_toDigits] at hcs
    cases hcs
  rw [word?, if_neg (hne _ (by decide)), if_neg (hne _ (by decide)), if_neg (hne _ (by decide)),
    decimal?_toDigits, Option.map_some]

theorem lexes_toDigits (n : Nat) : Lexes (Nat.toDigits 10 n) [.number ⟨n, 0⟩] := by
  intro rest hrest
  obtain ⟨d, ds, hcons⟩ := List.exists_cons_of_ne_nil (Nat.toDigits_ne_nil (n := n) (b := 10))
  have hdigits : ∀ c ∈ d :: ds, isSpace c = false ∧ c ≠ '"' ∧ mark? c = none ∧ isWordPart c = true := by
    rw [← hcons]
    exact fun c hc => of_isDigit (isDigit_of_mem_toDigits hc)
  obtain ⟨hspace, hquote, hmark, -⟩ := hdigits d List.mem_cons_self
  have hparts : ∀ c ∈ ds, isWordPart c = true := fun c hc =>
    (hdigits c (List.mem_cons_of_mem d hc)).2.2.2
  have hspan := span_append hparts hrest
  rw [hcons, List.cons_append, lexemes?, if_neg (by rw [hspace]; decide), if_neg hquote, hmark]
  dsimp only
  rw [hspan.1, hspan.2, ← hcons, word?_toDigits, Option.bind_some]
  rfl

theorem lexes_more {c : Char} {closing : Lexeme} (depth : Nat)
    (hc : isSpace c = false ∧ c ≠ '"' ∧ mark? c = some closing)
    {more : List (List Char)} {lss : List (List Lexeme)} (h : List.Forall₂ Lexes more lss) :
    Lexes (more.flatMap (fun item => ',' :: (newLine (depth + 1) ++ item)) ++ (newLine depth ++ [c]))
        (lss.flatMap (.comma :: ·) ++ [closing]) ∧
      ∀ d ∈ (more.flatMap (fun item => ',' :: (newLine (depth + 1) ++ item)) ++
        (newLine depth ++ [c])).head?, isWordPart d = false := by
  induction h with
  | nil =>
    refine ⟨(lexes_nil.cons_mark hc).newLine_append depth, ?_⟩
    rintro d hd
    obtain rfl := Option.some.inj hd
    rfl
  | cons hitem _ ih =>
    refine ⟨?_, ?_⟩
    · simp only [List.flatMap_cons, List.cons_append, List.append_assoc]
      exact ((hitem.append ih.1 ih.2).newLine_append (depth + 1)).cons_mark (by decide)
    · rintro d hd
      obtain rfl := Option.some.inj hd
      rfl

theorem lexes_block {o c : Char} {opening closing : Lexeme} (depth : Nat)
    (ho : isSpace o = false ∧ o ≠ '"' ∧ mark? o = some opening)
    (hc : isSpace c = false ∧ c ≠ '"' ∧ mark? c = some closing)
    {items : List (List Char)} {lss : List (List Lexeme)} (h : List.Forall₂ Lexes items lss) :
    Lexes (block o c depth items) (blockLexemes opening closing lss) := by
  cases h with
  | nil => exact (lexes_nil.cons_mark hc).cons_mark ho
  | cons hitem hmore =>
    obtain ⟨hrest, hhead⟩ := lexes_more depth hc hmore
    simp only [block, blockLexemes, List.append_assoc]
    exact ((hitem.append hrest hhead).newLine_append (depth + 1)).cons_mark ho

mutual

/-- **The text of a value has the lexemes of the value.** -/
theorem lexes_write (depth : Nat) : (v : Json) → Lexes (write depth v) (lexemes v)
  | number n => by
    rw [write, lexemes]
    exact lexes_toDigits n
  | string text => by
    rw [write, lexemes, ← List.append_nil (stringText text)]
    exact lexes_nil.string_append text
  | array elements => by
    rw [write, lexemes]
    exact lexes_block depth (by decide) (by decide) (lexes_writeElements (depth + 1) elements)
  | object members => by
    rw [write, lexemes]
    exact lexes_block depth (by decide) (by decide) (lexes_writeMembers (depth + 1) members)

theorem lexes_writeElements (depth : Nat) :
    (vs : List Json) → List.Forall₂ Lexes (writeElements depth vs) (elementLexemes vs)
  | [] => .nil
  | v :: vs => .cons (lexes_write depth v) (lexes_writeElements depth vs)

theorem lexes_writeMembers (depth : Nat) :
    (members : List (String × Json)) →
      List.Forall₂ Lexes (writeMembers depth members) (memberLexemes members)
  | [] => .nil
  | (name, v) :: more =>
    .cons ((((lexes_write depth v).cons_space rfl).cons_mark (by decide)).string_append name)
      (lexes_writeMembers depth more)

end

/-! ## Values -/

mutual

/-- What a value that is written stands for. -/
def value : Json → JsonValue
  | number n => .number ⟨n, 0⟩
  | string text => .string text
  | array elements => .array (values elements)
  | object members => .object (memberValues members)

def values : List Json → List JsonValue
  | [] => []
  | v :: vs => value v :: values vs

def memberValues : List (String × Json) → List (String × JsonValue)
  | [] => []
  | (name, v) :: more => (name, value v) :: memberValues more

end

/-- The machine comes from one state to another over the lexemes. -/
def Runs (s : State) (ls : List Lexeme) (t : State) : Prop :=
  ls.foldlM State.next? s = some t

theorem Runs.cons {s t u : State} {l : Lexeme} (hl : s.next? l = some t) (h : Runs t ls u) :
    Runs s (l :: ls) u := by
  rw [Runs, List.foldlM_cons, hl]
  exact h

theorem Runs.append {s t u : State} {ms : List Lexeme} (hls : Runs s ls t) (hms : Runs t ms u) :
    Runs s (ls ++ ms) u := by
  rw [Runs, List.foldlM_append, hls]
  exact hms

mutual

/-- **From the lexemes of a value the machine builds the value**, whatever is open around it. -/
theorem runs_lexemes : (v : Json) → (fs : List Frame) →
    Runs (.value fs) (lexemes v) (.done v.value fs)
  | number _, _ => rfl
  | string _, _ => rfl
  | array [], _ => rfl
  | array (v :: vs), fs =>
    .cons rfl ((runs_lexemes v _).append (runs_elements vs v.value [] fs))
  | object [], _ => rfl
  | object ((name, v) :: more), fs =>
    .cons rfl (.cons rfl (.cons rfl
      ((runs_lexemes v _).append (runs_members more name v.value [] fs))))

theorem runs_elements : (vs : List Json) → (v : JsonValue) → (before : List JsonValue) →
    (fs : List Frame) →
    Runs (.done v (.array before :: fs))
      ((elementLexemes vs).flatMap (Lexeme.comma :: ·) ++ [Lexeme.closeArray])
      (.done (.array (before.reverse ++ v :: values vs)) fs)
  | [], v, before, fs => by
    rw [values, ← List.reverse_cons]
    rfl
  | w :: vs, v, before, fs => by
    have hmore := runs_elements vs w.value (v :: before) fs
    rw [List.reverse_cons, List.append_assoc] at hmore
    rw [elementLexemes, List.flatMap_cons, List.append_assoc, List.cons_append]
    exact .cons rfl ((runs_lexemes w _).append hmore)

theorem runs_members : (members : List (String × Json)) → (name : String) → (v : JsonValue) →
    (before : List (String × JsonValue)) → (fs : List Frame) →
    Runs (.done v (.object before name :: fs))
      ((memberLexemes members).flatMap (Lexeme.comma :: ·) ++ [Lexeme.closeObject])
      (.done (.object (before.reverse ++ (name, v) :: memberValues members)) fs)
  | [], name, v, before, fs => by
    rw [memberValues, ← List.reverse_cons]
    rfl
  | (next, w) :: more, name, v, before, fs => by
    have hmore := runs_members more next w.value ((name, v) :: before) fs
    rw [List.reverse_cons, List.append_assoc] at hmore
    rw [memberLexemes, List.flatMap_cons, List.append_assoc, List.cons_append]
    exact .cons rfl (.cons rfl (.cons rfl ((runs_lexemes w _).append hmore)))

end

/-- **A value is read back from its text.** -/
theorem read?_text (v : Json) : read? v.text = some v.value := by
  have hlex : lexemes? (write 0 v) = some (lexemes v) := by
    have h := lexes_write 0 v [] nofun
    rw [List.append_nil, lexemes?, Option.map_some, List.append_nil] at h
    exact h
  have hrun : (lexemes v).foldlM State.next? (.value []) = some (.done v.value []) :=
    runs_lexemes v []
  rw [read?, text, String.toList_ofList, hlex, Option.bind_some, hrun, Option.bind_some,
    State.result?]

end Json

/-! ## Tokens -/

namespace Decimal

/-- A number without sign and without fraction. -/
def natural? (n : Decimal) : Option Nat :=
  if n.exponent = 0 ∧ 0 ≤ n.digits then some n.digits.toNat else none

@[simp] theorem natural?_ofNat (n : Nat) : natural? ⟨n, 0⟩ = some n := by
  simp [natural?]

end Decimal

namespace JsonValue

def natural? : JsonValue → Option Nat
  | .number n => n.natural?
  | _ => none

def text? : JsonValue → Option String
  | .string text => some text
  | _ => none

end JsonValue

namespace Span

/-- Reads a range. Members of other names do not matter. -/
def ofValue? : JsonValue → Option Span
  | .object members => do
    let start ← (← members.lookup "start").natural?
    let stop ← (← members.lookup "end").natural?
    return ⟨start, stop⟩
  | _ => none

@[simp] theorem ofValue?_toJson (s : Span) : ofValue? s.toJson.value = some s := by
  simp [toJson, Json.value, Json.memberValues, ofValue?, List.lookup_cons, JsonValue.natural?]

end Span

namespace Token

/-- What has been read of a token. -/
structure Fields where
  kind : Option Kind := none
  label : Option String := none
  value : Option String := none
  span : Option Span := none
  children : List Token := []

namespace Fields

/-- Takes a member that holds no tokens. Members of other names do not matter. -/
def set? (fields : Fields) (name : String) (v : JsonValue) : Option Fields :=
  if name = "kind" then
    (v.text?.bind Kind.ofName?).map fun kind => { fields with kind := some kind }
  else if name = "alias" then
    v.text?.map fun label => { fields with label := some label }
  else if name = "value" then
    v.text?.map fun value => { fields with value := some value }
  else if name = "span" then
    (Span.ofValue? v).map fun span => { fields with span := some span }
  else some fields

/-- The token, unless one of its fields is missing. It need not have a label or children. -/
def token? (fields : Fields) : Option Token := do
  return ⟨← fields.kind, fields.label, ← fields.value, ← fields.span, fields.children⟩

end Fields

mutual

/-- Reads a token from an object. -/
def ofValue? : JsonValue → Option Token
  | .object members => (fields? members).bind Fields.token?
  | _ => none

def fields? : List (String × JsonValue) → Option Fields
  | [] => some {}
  | (name, .array elements) :: more =>
    if name = "children" then do
      let fields ← fields? more
      return { fields with children := ← listOfValues? elements }
    else (fields? more).bind (·.set? name (.array elements))
  | (name, v) :: more =>
    if name = "children" then none else (fields? more).bind (·.set? name v)

def listOfValues? : List JsonValue → Option (List Token)
  | [] => some []
  | v :: vs => do return (← ofValue? v) :: (← listOfValues? vs)

end

theorem fields?_cons (name text : String) {more : List (String × JsonValue)} {fields : Fields}
    (h : fields? more = some fields) (hname : name ≠ "children") :
    fields? ((name, .string text) :: more) = fields.set? name (.string text) := by
  simp [fields?, hname, h]

theorem fields?_span (s : Span) {more : List (String × JsonValue)} {fields : Fields}
    (h : fields? more = some fields) :
    fields? (("span", s.toJson.value) :: more) = some { fields with span := some s } := by
  have hs := Span.ofValue?_toJson s
  rw [Span.toJson, Json.value] at hs ⊢
  simp [fields?, h, Fields.set?, hs]

mutual

/-- **A token is read back from its object**, with all that is below it. -/
theorem ofValue?_toJson : (t : Token) → ofValue? t.toJson.value = some t
  | ⟨kind, label, value, span, children⟩ => by
    have hchildren : fields? (Json.memberValues
        (if children.isEmpty then [] else [("children", .array (toJsonList children))])) =
        some { children := children } := by
      cases children with
      | nil => rfl
      | cons t ts =>
        have hlist := listOfValues?_toJsonList (t :: ts)
        simp [Json.memberValues, Json.value, fields?, hlist]
    have hvalue := fields?_cons "value" value (fields?_span span hchildren) (by decide)
    have hlabel : fields? (Json.memberValues ((label.map fun text => ("alias", Json.string text)).toList
        ++ ([("value", .string value), ("span", span.toJson)]
          ++ if children.isEmpty then [] else [("children", .array (toJsonList children))]))) =
        some { label := label, value := some value, span := some span, children := children } := by
      cases label with
      | none => exact hvalue
      | some label => exact fields?_cons "alias" label hvalue (by decide)
    have hkind := fields?_cons "kind" kind.name hlabel (by decide)
    rw [Fields.set?, if_pos rfl, text?, Option.bind_some, Kind.ofName?_name, Option.map_some] at hkind
    rw [toJson, Json.value, ofValue?, List.append_assoc]
    exact congrArg (·.bind Fields.token?) hkind

theorem listOfValues?_toJsonList : (ts : List Token) →
    listOfValues? (Json.values (toJsonList ts)) = some ts
  | [] => rfl
  | t :: ts => by
    rw [toJsonList, Json.values, listOfValues?, ofValue?_toJson t, listOfValues?_toJsonList ts]
    rfl

end

/-- Reads a list of tokens from a text in the JSON format. -/
def readList? (text : String) : Option (List Token) :=
  (read? text).bind fun
    | .array elements => listOfValues? elements
    | _ => none

end Token

namespace Format

/-- **The JSON form loses nothing**: the tokens are read back from it as they are. -/
theorem readList?_render_json (source : String) :
    (∀ ts, Token.readList? (render source ts .json) = some ts) ∧
      Function.Injective fun ts => render source ts .json := by
  have hread : ∀ ts, Token.readList? (render source ts .json) = some ts := by
    intro ts
    rw [render, Token.readList?, Json.read?_text, Option.bind_some, Json.value]
    exact Token.listOfValues?_toJsonList ts
  refine ⟨hread, fun ts us h => ?_⟩
  dsimp only at h
  exact Option.some.inj ((hread ts).symm.trans (h ▸ hread us))

end Format

end Highlight
