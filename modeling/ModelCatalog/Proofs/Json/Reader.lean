import Mathlib.Data.List.Basic
import ModelCatalog.Json.Reader

/-!
# The tokens of a document

A text begins with a value exactly if it begins with the tokens of that value, gaps aside: the
automaton that reads documents recognises the language of `Json.tokens`, as far as it is not too
deeply nested.

## The invariants

The automaton has read, at any time, the tokens of the containers on its stack and of what its
position holds; a token more is a token more of these. And its stack has always had room for what it
has read, so no value comes out that is nested too deeply.

In the other direction the tokens of a value lead from any position that a value may stand at to the
position after that value, as long as the stack has room for its depth.
-/

namespace ModelCatalog

/-! ## Lists with commas -/

namespace Token

def separated (pieces : List (List Token)) : List Token := [.comma].intercalate pieces

def terminated (pieces : List (List Token)) : List Token := pieces.flatMap (· ++ [.comma])

private theorem separated_cons (first : List Token) (others : List (List Token)) :
    separated (first :: others) = first ++ others.flatMap (.comma :: ·) := by
  induction others generalizing first with
  | nil => simp [separated]
  | cons second others ih => simpa [separated] using ih second

@[simp] theorem separated_concat (others : List (List Token)) (last : List Token) :
    separated (others ++ [last]) = terminated others ++ last := by
  induction others with
  | nil => simp [separated, terminated]
  | cons first others ih =>
    rw [separated] at ih
    rw [separated, List.cons_append, List.intercalate_cons_of_ne_nil (by simp), ih]
    simp [terminated]

private theorem separated_append_comma {pieces : List (List Token)} (h : pieces ≠ []) :
    separated pieces ++ [.comma] = terminated pieces := by
  obtain ⟨others, last, rfl⟩ := (List.eq_nil_or_concat' pieces).resolve_left h
  simp [terminated]

end Token

/-! ## The tokens of a value

The tokens of items and of entries are kept apart, one list of tokens for each, because the
automaton meets containers with some of their items read and others still to come. -/

namespace Json

open Token (separated)

mutual

def tokens : Json → List Token
  | .string value => [.string value]
  | .array items => .openArray :: (separated (itemTokens items) ++ [.closeArray])
  | .object fields => .openObject :: (separated (fieldTokens fields) ++ [.closeObject])
  | value => [.scalar value]

def itemTokens : List Json → List (List Token)
  | [] => []
  | item :: items => tokens item :: itemTokens items

def fieldTokens : List (String × Json) → List (List Token)
  | [] => []
  | (key, value) :: fields => (.string key :: .colon :: tokens value) :: fieldTokens fields

end

def entryTokens (entry : String × Json) : List Token :=
  .string entry.1 :: .colon :: entry.2.tokens

private theorem itemTokens_eq_map (items : List Json) : itemTokens items = items.map tokens := by
  induction items with
  | nil => rw [itemTokens, List.map_nil]
  | cons item items ih => rw [itemTokens, ih, List.map_cons]

private theorem fieldTokens_eq_map (fields : Fields Json) :
    fieldTokens fields = fields.map entryTokens := by
  induction fields with
  | nil => rw [fieldTokens, List.map_nil]
  | cons entry fields ih => rw [fieldTokens, ih, List.map_cons, entryTokens]

@[simp] theorem tokens_array (items : List Json) : (Json.array items).tokens =
    .openArray :: (separated (items.map tokens) ++ [.closeArray]) := by
  rw [tokens, itemTokens_eq_map]

@[simp] theorem tokens_object (fields : Fields Json) : (Json.object fields).tokens =
    .openObject :: (separated (fields.map entryTokens) ++ [.closeObject]) := by
  rw [tokens, fieldTokens_eq_map]

mutual

/-- The number of containers inside one another. -/
def depth : Json → Nat
  | .array items => itemsDepth items + 1
  | .object fields => fieldsDepth fields + 1
  | _ => 0

def itemsDepth : List Json → Nat
  | [] => 0
  | item :: items => max (depth item) (itemsDepth items)

def fieldsDepth : List (String × Json) → Nat
  | [] => 0
  | (_, value) :: fields => max (depth value) (fieldsDepth fields)

end

end Json

/-! ## Texts as tokens -/

namespace Token

/-- A text begins with tokens, gaps aside, and goes on with the rest. -/
inductive Lexes : List Char → List Token → List Char → Prop
  | nil (cs : List Char) : Lexes cs [] cs
  | cons {cs cs' rest : List Char} {token : Token} {tokens : List Token} :
    next? cs = some (token, cs') → Lexes cs' tokens rest → Lexes cs (token :: tokens) rest

theorem ofPunctuation?_eq_some {c : Char} {token : Token} (h : ofPunctuation? c = some token) :
    (c, token) ∈ [('[', openArray), (']', closeArray), ('{', openObject), ('}', closeObject),
      (',', comma), (':', colon)] := by
  grind [ofPunctuation?]

theorem eq_of_ofPunctuation? {c d : Char} {token : Token} (hc : ofPunctuation? c = some token)
    (hd : ofPunctuation? d = some token) : c = d := by
  have hmem := ofPunctuation?_eq_some hc
  have hmem' := ofPunctuation?_eq_some hd
  simp only [List.mem_cons, Prod.mk.injEq, List.not_mem_nil, or_false] at hmem hmem'
  rcases hmem with ⟨rfl, rfl⟩ | ⟨rfl, rfl⟩ | ⟨rfl, rfl⟩ | ⟨rfl, rfl⟩ | ⟨rfl, rfl⟩ | ⟨rfl, rfl⟩ <;>
    simp_all

theorem next?_punctuation {c : Char} {token : Token} (h : ofPunctuation? c = some token)
    (cs : List Char) : next? (c :: cs) = some (token, cs) := by
  have hmem := ofPunctuation?_eq_some h
  simp only [List.mem_cons, Prod.mk.injEq, List.not_mem_nil, or_false] at hmem
  rcases hmem with ⟨rfl, rfl⟩ | ⟨rfl, rfl⟩ | ⟨rfl, rfl⟩ | ⟨rfl, rfl⟩ | ⟨rfl, rfl⟩ | ⟨rfl, rfl⟩ <;>
    rfl

/-- A word token is what writes its value. -/
def IsPlain (token : Token) : Prop := ∀ value, token = .scalar value → value.tokens = [token]

private theorem tokens_of_readWord? {cs rest : List Char} {value : Json}
    (h : readWord? cs = some (value, rest)) : value.tokens = [.scalar value] := by
  unfold readWord? at h
  split at h
  iterate 3
    · obtain ⟨rfl, -⟩ := Prod.mk.inj (Option.some.inj h)
      rw [Json.tokens] <;> simp
  · obtain ⟨⟨literal, rest'⟩, -, hvalue⟩ := Option.bind_eq_some_iff.1 h
    obtain ⟨number, -, heq⟩ := Option.map_eq_some_iff.1 hvalue
    obtain ⟨rfl, -⟩ := Prod.mk.inj heq
    rw [Json.tokens] <;> simp

private theorem isPlain_of_next? {cs rest : List Char} {token : Token}
    (h : next? cs = some (token, rest)) :
    token.IsPlain := by
  induction cs with
  | nil => simp [next?] at h
  | cons c cs ih =>
    rw [next?] at h
    split at h
    · exact ih h
    · split at h
      · obtain ⟨⟨value, rest'⟩, -, heq⟩ := Option.map_eq_some_iff.1 h
        obtain ⟨rfl, -⟩ := Prod.mk.inj heq
        rintro _ ⟨⟩
      · split at h
        · rename_i punctuation hpunctuation
          obtain ⟨rfl, -⟩ := Prod.mk.inj (Option.some.inj h)
          rintro value rfl
          simpa using ofPunctuation?_eq_some hpunctuation
        · obtain ⟨⟨value, rest'⟩, hread, heq⟩ := Option.map_eq_some_iff.1 h
          obtain ⟨rfl, -⟩ := Prod.mk.inj heq
          rintro _ ⟨⟩
          exact tokens_of_readWord? hread

theorem Lexes.isPlain {cs rest : List Char} {tokens : List Token} (h : Lexes cs tokens rest) :
    ∀ token ∈ tokens, token.IsPlain := by
  induction h with
  | nil => simp
  | cons hnext _ ih => exact List.forall_mem_cons.2 ⟨isPlain_of_next? hnext, ih⟩

end Token

namespace Reader

open Token (separated terminated separated_cons separated_concat separated_append_comma)

/-! ## The tokens that have been read

The first of the two invariants. Frames and positions say what has been read of the containers that
are still open; where commas stand behind items, a further item has been promised. -/

/-- What has been read of a container. -/
@[simp] def Frame.tokens : Frame → List Token
  | .array done => .openArray :: terminated (done.reverse.map Json.tokens)
  | .object done name =>
    .openObject :: (terminated (done.reverse.map Json.entryTokens) ++ [.string name, .colon])

/-- What has been read at a position, inside the containers around it. -/
@[simp] def Position.tokens : Position → List Token
  | .value => []
  | .firstItem => [.openArray]
  | .afterItem done => .openArray :: separated (done.reverse.map Json.tokens)
  | .firstKey => [.openObject]
  | .key done => .openObject :: terminated (done.reverse.map Json.entryTokens)
  | .colon done name =>
    .openObject :: (terminated (done.reverse.map Json.entryTokens) ++ [.string name])
  | .afterEntry done => .openObject :: separated (done.reverse.map Json.entryTokens)
  | .finished read => read.tokens

def stackTokens (stack : List Frame) : List Token := stack.reverse.flatMap Frame.tokens

def readTokens (state : Position × List Frame) : List Token :=
  stackTokens state.2 ++ state.1.tokens

/-- The states that the automaton can be in: what comes after an item comes after at least one, and
a finished value is in no container. -/
def Consistent : Position × List Frame → Prop
  | (.afterItem done, _) => done ≠ []
  | (.afterEntry done, _) => done ≠ []
  | (.finished _, stack) => stack = []
  | _ => True

@[simp] theorem stackTokens_cons (frame : Frame) (stack : List Frame) :
    stackTokens (frame :: stack) = stackTokens stack ++ frame.tokens := by
  simp [stackTokens]

theorem consistent_complete (value : Json) (stack : List Frame) :
    Consistent (complete value stack) := by
  rcases stack with _ | ⟨done | ⟨done, key⟩, stack⟩ <;> simp [complete, Consistent]

/-- A complete value is read after its containers. -/
theorem readTokens_complete (value : Json) (stack : List Frame) :
    readTokens (complete value stack) = stackTokens stack ++ value.tokens := by
  rcases stack with _ | ⟨done | ⟨done, key⟩, stack⟩
  · simp [complete, readTokens]
  · simp [complete, readTokens]
  · simp [complete, readTokens, Json.entryTokens]

private theorem readTokens_close {value : Json} {position : Position} {token : Token}
    (h : value.tokens = position.tokens ++ [token]) (stack : List Frame) :
    readTokens (complete value stack) = readTokens (position, stack) ++ [token] ∧
      Consistent (complete value stack) := by
  refine ⟨?_, consistent_complete value stack⟩
  rw [readTokens_complete, h, readTokens, List.append_assoc]

private theorem readTokens_beginValue? {stack : List Frame} {token : Token}
    {state : Position × List Frame} (h : beginValue? stack token = some state)
    (htoken : token.IsPlain) :
    readTokens state = stackTokens stack ++ [token] ∧ Consistent state := by
  unfold beginValue? at h
  split at h
  · obtain rfl := Option.some.inj h
    exact ⟨by rw [readTokens_complete, htoken _ rfl], consistent_complete _ _⟩
  · obtain rfl := Option.some.inj h
    exact ⟨by rw [readTokens_complete, Json.tokens], consistent_complete _ _⟩
  · obtain ⟨-, hstate⟩ := Option.ite_none_right_eq_some.1 h
    obtain rfl := Option.some.inj hstate
    exact ⟨by simp [readTokens], trivial⟩
  · obtain ⟨-, hstate⟩ := Option.ite_none_right_eq_some.1 h
    obtain rfl := Option.some.inj hstate
    exact ⟨by simp [readTokens], trivial⟩
  · cases h

/-- **One token further.** A step reads the token. -/
theorem readTokens_step? {state state' : Position × List Frame} {token : Token}
    (h : step? state token = some state') (htoken : token.IsPlain) (hstate : Consistent state) :
    readTokens state' = readTokens state ++ [token] ∧ Consistent state' := by
  unfold step? at h
  split at h
  -- a value that is no item, or the first one
  · simpa [readTokens] using readTokens_beginValue? h htoken
  · obtain rfl := Option.some.inj h
    exact readTokens_close (by simp [separated]) _
  · simpa [readTokens, terminated] using
      readTokens_beginValue? h htoken
  -- behind an item
  · rename_i done stack
    have hdone : done.reverse.map Json.tokens ≠ [] := by simpa [Consistent] using hstate
    obtain rfl := Option.some.inj h
    refine ⟨?_, trivial⟩
    simpa [readTokens] using (separated_append_comma hdone).symm
  · obtain rfl := Option.some.inj h
    exact readTokens_close (by simp) _
  -- the parts of an entry
  · obtain rfl := Option.some.inj h
    exact readTokens_close (by simp [separated]) _
  · obtain rfl := Option.some.inj h
    exact ⟨by simp [readTokens, terminated], trivial⟩
  · obtain rfl := Option.some.inj h
    exact ⟨by simp [readTokens], trivial⟩
  · obtain rfl := Option.some.inj h
    exact ⟨by simp [readTokens], trivial⟩
  -- behind an entry
  · rename_i done stack
    have hdone : done.reverse.map Json.entryTokens ≠ [] := by simpa [Consistent] using hstate
    obtain rfl := Option.some.inj h
    refine ⟨?_, trivial⟩
    simpa [readTokens] using (separated_append_comma hdone).symm
  · obtain rfl := Option.some.inj h
    exact readTokens_close (by simp) _
  · cases h

/-! ## Runs

In the other direction, by induction on the value: from any position where a value may stand, its
tokens lead to the position after it. -/

/-- Tokens lead from a state to another. -/
inductive Run : Position × List Frame → List Token → Position × List Frame → Prop
  | nil (state : Position × List Frame) : Run state [] state
  | cons {state next last : Position × List Frame} {token : Token} {tokens : List Token} :
    step? state token = some next → Run next tokens last → Run state (token :: tokens) last

theorem Run.readTokens {state last : Position × List Frame} {tokens : List Token}
    (h : Run state tokens last) (htokens : ∀ token ∈ tokens, token.IsPlain)
    (hstate : Consistent state) :
    readTokens last = readTokens state ++ tokens ∧ Consistent last := by
  induction h with
  | nil => exact ⟨by simp, hstate⟩
  | cons hstep _ ih =>
    obtain ⟨htoken, htokens⟩ := List.forall_mem_cons.1 htokens
    obtain ⟨hread, hnext⟩ := readTokens_step? hstep htoken hstate
    obtain ⟨hreads, hlast⟩ := ih htokens hnext
    exact ⟨by rw [hreads, hread, List.append_assoc, List.singleton_append], hlast⟩

theorem Run.append {state middle last : Position × List Frame} {tokens others : List Token}
    (h : Run state tokens middle) (hothers : Run middle others last) :
    Run state (tokens ++ others) last := by
  induction h with
  | nil => exact hothers
  | cons hstep _ ih => exact .cons hstep (ih hothers)

/-- What may stand after a comma may be the first item of an array. -/
theorem Run.firstItem {value : Json} {stack : List Frame} {last : Position × List Frame}
    (h : Run (.value, .array [] :: stack) value.tokens last) :
    Run (.firstItem, stack) value.tokens last := by
  obtain ⟨token, tokens, hne, hvalue⟩ : ∃ token tokens, token ≠ .closeArray ∧
      value.tokens = token :: tokens := by
    cases value <;> simp [Json.tokens]
  have hstep : step? (.firstItem, stack) token = step? (.value, .array [] :: stack) token := by
    cases token <;> simp_all [step?]
  rw [hvalue] at h ⊢
  obtain _ | ⟨hfirst, hothers⟩ := h
  exact .cons (hstep.trans hfirst) hothers

mutual

/-- **The way of a value.** Its tokens lead from where the value may stand to where it is complete,
if the stack has room for it. -/
theorem run_tokens : ∀ {value : Json} {stack : List Frame},
    stack.length + value.depth < depthLimit →
      Run (.value, stack) value.tokens (complete value stack)
  | .null, _, _ | .bool _, _, _ | .number _, _, _ | .string _, _, _ => by
    rw [Json.tokens]
    · exact .cons rfl (.nil _)
    all_goals simp
  | .array [], stack, h => by
    rw [Json.depth] at h
    have hopen : step? (.value, stack) .openArray = some (.firstItem, stack) := if_pos (by omega)
    rw [Json.tokens]
    exact .cons hopen (.cons rfl (.nil _))
  | .array (first :: items), stack, h => by
    rw [Json.depth, Json.itemsDepth] at h
    have hopen : step? (.value, stack) .openArray = some (.firstItem, stack) := if_pos (by omega)
    have hfirst : Run (.value, .array [] :: stack) first.tokens (.afterItem [first], stack) :=
      run_tokens (by rw [List.length_cons]; omega)
    have hitems : Run (.afterItem [first], stack) _
        (.afterItem (items.reverse ++ [first]), stack) :=
      run_itemTokens (by omega)
    have hclose : step? (.afterItem (items.reverse ++ [first]), stack) .closeArray =
        some (complete (.array (first :: items)) stack) := by
      simp [step?]
    rw [Json.tokens, Json.itemTokens, separated_cons]
    exact .cons hopen ((hfirst.firstItem.append hitems).append (.cons hclose (.nil _)))
  | .object [], stack, h => by
    rw [Json.depth] at h
    have hopen : step? (.value, stack) .openObject = some (.firstKey, stack) := if_pos (by omega)
    rw [Json.tokens]
    exact .cons hopen (.cons rfl (.nil _))
  | .object ((key, value) :: fields), stack, h => by
    rw [Json.depth, Json.fieldsDepth] at h
    have hopen : step? (.value, stack) .openObject = some (.firstKey, stack) := if_pos (by omega)
    have hvalue : Run (.value, .object [] key :: stack) value.tokens
        (.afterEntry [(key, value)], stack) :=
      run_tokens (by rw [List.length_cons]; omega)
    have hfields : Run (.afterEntry [(key, value)], stack) _
        (.afterEntry (fields.reverse ++ [(key, value)]), stack) :=
      run_fieldTokens (by omega)
    have hclose : step? (.afterEntry (fields.reverse ++ [(key, value)]), stack) .closeObject =
        some (complete (.object ((key, value) :: fields)) stack) := by
      simp [step?]
    have hentry : Run (.firstKey, stack) (.string key :: .colon :: value.tokens)
        (.afterEntry [(key, value)], stack) := .cons rfl (.cons rfl hvalue)
    rw [Json.tokens, Json.fieldTokens, separated_cons]
    exact .cons hopen ((hentry.append hfields).append (.cons hclose (.nil _)))

theorem run_itemTokens : ∀ {items done : List Json} {stack : List Frame},
    stack.length + 1 + Json.itemsDepth items < depthLimit →
      Run (.afterItem done, stack) ((Json.itemTokens items).flatMap (.comma :: ·))
        (.afterItem (items.reverse ++ done), stack)
  | [], done, stack, _ => .nil _
  | item :: items, done, stack, h => by
    rw [Json.itemsDepth] at h
    have hitem : Run (.value, .array done :: stack) item.tokens
        (.afterItem (item :: done), stack) :=
      run_tokens (by rw [List.length_cons]; omega)
    have hitems : Run (.afterItem (item :: done), stack) _
        (.afterItem (items.reverse ++ item :: done), stack) :=
      run_itemTokens (by omega)
    rw [Json.itemTokens, List.flatMap_cons, List.reverse_cons, List.append_assoc]
    exact .cons rfl (hitem.append hitems)

theorem run_fieldTokens : ∀ {fields done : List (String × Json)} {stack : List Frame},
    stack.length + 1 + Json.fieldsDepth fields < depthLimit →
      Run (.afterEntry done, stack) ((Json.fieldTokens fields).flatMap (.comma :: ·))
        (.afterEntry (fields.reverse ++ done), stack)
  | [], done, stack, _ => .nil _
  | (key, value) :: fields, done, stack, h => by
    rw [Json.fieldsDepth] at h
    have hvalue : Run (.value, .object done key :: stack) value.tokens
        (.afterEntry ((key, value) :: done), stack) :=
      run_tokens (by rw [List.length_cons]; omega)
    have hfields : Run (.afterEntry ((key, value) :: done), stack) _
        (.afterEntry (fields.reverse ++ (key, value) :: done), stack) :=
      run_fieldTokens (by omega)
    rw [Json.fieldTokens, List.flatMap_cons, List.reverse_cons, List.append_assoc]
    exact .cons rfl (.cons rfl (.cons rfl (hvalue.append hfields)))

end

/-! ## Depth

The other half of the bound on nesting: the stack has always had room for what has been read. Each
value that is complete is as many containers away from the bound as it has containers around it. -/

/-- The values that have been read of a container. -/
def Frame.values : Frame → List Json
  | .array done => done
  | .object done _ => done.map Prod.snd

/-- Each container is inside fewer containers than the bound allows, and so are the values in it,
with all that is inside them. -/
def HasRoom : List Frame → Prop
  | [] => True
  | frame :: stack =>
    stack.length + 1 < depthLimit ∧
      (∀ value ∈ frame.values, stack.length + 1 + value.depth < depthLimit) ∧ HasRoom stack

/-- The containers at a position, the one that is being read included, have room. -/
def Bounded : Position × List Frame → Prop
  | (.value, stack) => HasRoom stack
  | (.firstItem, stack) => HasRoom (.array [] :: stack)
  | (.afterItem done, stack) => HasRoom (.array done :: stack)
  | (.firstKey, stack) => HasRoom (.object [] "" :: stack)
  | (.key done, stack) => HasRoom (.object done "" :: stack)
  | (.colon done key, stack) => HasRoom (.object done key :: stack)
  | (.afterEntry done, stack) => HasRoom (.object done "" :: stack)
  | (.finished value, stack) => stack.length + value.depth < depthLimit

private theorem HasRoom.length_lt {stack : List Frame} (h : HasRoom stack) :
    stack.length < depthLimit := by
  cases stack with
  | nil => decide
  | cons frame stack => exact h.1

private theorem depth_of_isPlain {value : Json} (h : (Token.scalar value).IsPlain) :
    value.depth = 0 := by
  have htokens := h value rfl
  cases value <;> simp_all [Json.tokens, Json.depth]

private theorem depth_array_le {items : List Json} {n : Nat} (h : ∀ item ∈ items, item.depth ≤ n) :
    (Json.array items).depth ≤ n + 1 := by
  rw [Json.depth, Nat.add_le_add_iff_right]
  induction items with
  | nil => exact Nat.zero_le n
  | cons item items ih =>
    obtain ⟨hitem, hitems⟩ := List.forall_mem_cons.1 h
    rw [Json.itemsDepth]
    exact Nat.max_le.2 ⟨hitem, ih hitems⟩

private theorem depth_object_le {fields : List (String × Json)} {n : Nat}
    (h : ∀ entry ∈ fields, entry.2.depth ≤ n) : (Json.object fields).depth ≤ n + 1 := by
  rw [Json.depth, Nat.add_le_add_iff_right]
  induction fields with
  | nil => exact Nat.zero_le n
  | cons entry fields ih =>
    obtain ⟨hentry, hfields⟩ := List.forall_mem_cons.1 h
    rw [Json.fieldsDepth]
    exact Nat.max_le.2 ⟨hentry, ih hfields⟩

theorem bounded_complete {value : Json} {stack : List Frame} (h : HasRoom stack)
    (hvalue : stack.length + value.depth < depthLimit) : Bounded (complete value stack) := by
  rcases stack with _ | ⟨done | ⟨done, key⟩, stack⟩
  · exact hvalue
  · exact ⟨h.1, List.forall_mem_cons.2 ⟨hvalue, h.2.1⟩, h.2.2⟩
  · exact ⟨h.1, List.forall_mem_cons.2 ⟨hvalue, h.2.1⟩, h.2.2⟩

private theorem bounded_complete_array {done : List Json} {stack : List Frame}
    (h : HasRoom (.array done :: stack)) : Bounded (complete (.array done.reverse) stack) := by
  obtain ⟨hlength, hvalues, hstack⟩ := h
  refine bounded_complete hstack ?_
  have hdepth : (Json.array done.reverse).depth ≤ depthLimit - (stack.length + 2) + 1 := by
    refine depth_array_le fun item hitem ↦ ?_
    have hfits := hvalues item (List.mem_reverse.1 hitem)
    omega
  omega

private theorem bounded_complete_object {done : List (String × Json)} {key : String}
    {stack : List Frame} (h : HasRoom (.object done key :: stack)) :
    Bounded (complete (.object done.reverse) stack) := by
  obtain ⟨hlength, hvalues, hstack⟩ := h
  refine bounded_complete hstack ?_
  have hdepth : (Json.object done.reverse).depth ≤ depthLimit - (stack.length + 2) + 1 := by
    refine depth_object_le fun entry hentry ↦ ?_
    have hfits := hvalues entry.2 (List.mem_map_of_mem (List.mem_reverse.1 hentry))
    omega
  omega

private theorem bounded_beginValue? {stack : List Frame} {token : Token}
    {state : Position × List Frame} (h : beginValue? stack token = some state)
    (htoken : token.IsPlain) (hstack : HasRoom stack) : Bounded state := by
  have hlength := hstack.length_lt
  unfold beginValue? at h
  split at h
  · obtain rfl := Option.some.inj h
    exact bounded_complete hstack (by rw [depth_of_isPlain htoken]; exact hlength)
  · obtain rfl := Option.some.inj h
    exact bounded_complete hstack (by simpa [Json.depth] using hlength)
  · obtain ⟨hroom, hstate⟩ := Option.ite_none_right_eq_some.1 h
    obtain rfl := Option.some.inj hstate
    exact ⟨hroom, by simp [Frame.values], hstack⟩
  · obtain ⟨hroom, hstate⟩ := Option.ite_none_right_eq_some.1 h
    obtain rfl := Option.some.inj hstate
    exact ⟨hroom, by simp [Frame.values], hstack⟩
  · cases h

/-- **One token further.** A step keeps within the bound. -/
theorem bounded_step? {state state' : Position × List Frame} {token : Token}
    (h : step? state token = some state') (htoken : token.IsPlain) (hstate : Bounded state) :
    Bounded state' := by
  unfold step? at h
  split at h
  -- a value that is no item, or the first one
  · exact bounded_beginValue? h htoken hstate
  · obtain rfl := Option.some.inj h
    exact bounded_complete_array hstate
  · exact bounded_beginValue? h htoken hstate
  -- behind an item
  · obtain rfl := Option.some.inj h
    exact hstate
  · obtain rfl := Option.some.inj h
    exact bounded_complete_array hstate
  -- the parts of an entry
  · obtain rfl := Option.some.inj h
    exact bounded_complete_object hstate
  · obtain rfl := Option.some.inj h
    exact hstate
  · obtain rfl := Option.some.inj h
    exact hstate
  · obtain rfl := Option.some.inj h
    exact hstate
  -- behind an entry
  · obtain rfl := Option.some.inj h
    exact hstate
  · obtain rfl := Option.some.inj h
    exact bounded_complete_object hstate
  · cases h

theorem Run.bounded {state last : Position × List Frame} {tokens : List Token}
    (h : Run state tokens last) (htokens : ∀ token ∈ tokens, token.IsPlain)
    (hstate : Bounded state) : Bounded last := by
  induction h with
  | nil => exact hstate
  | cons hstep _ ih =>
    obtain ⟨htoken, htokens⟩ := List.forall_mem_cons.1 htokens
    exact ih htokens (bounded_step? hstep htoken hstate)

/-! ## Texts

Both directions together: what is read off a text has been read by a run over tokens that the text
begins with, and such a run is what reading the text comes to. -/

/-- What is read off a text is read by a run over tokens that the text begins with. -/
theorem exists_run_of_finish? {state : Position × List Frame} {cs rest : List Char} {value : Json}
    (h : finish? state cs = some (value, rest)) :
    ∃ tokens stack, Token.Lexes cs tokens rest ∧ Run state tokens (.finished value, stack) := by
  fun_induction finish? state cs with
  | case1 cs read stack =>
    obtain ⟨rfl, rfl⟩ := Prod.mk.inj (Option.some.inj h)
    exact ⟨[], stack, .nil cs, .nil _⟩
  | case2 => cases h
  | case3 cs state _ token cs' hnext ih =>
    obtain ⟨next, hstep, hfinish⟩ := Option.bind_eq_some_iff.1 h
    obtain ⟨tokens, stack, hlexes, hrun⟩ := ih next hfinish
    exact ⟨token :: tokens, stack, .cons hnext hlexes, .cons hstep hrun⟩

private theorem finish?_of_run {state : Position × List Frame} {cs rest : List Char}
    {tokens : List Token} {value : Json} {stack : List Frame}
    (hlexes : Token.Lexes cs tokens rest)
    (hrun : Run state tokens (.finished value, stack)) :
    finish? state cs = some (value, rest) := by
  induction hlexes generalizing state with
  | nil cs =>
    cases hrun
    rw [finish?]
  | cons hnext _ ih =>
    obtain _ | ⟨hstep, hrun⟩ := hrun
    rw [finish?]
    · split
      · simp_all
      · rename_i token cs' hnext'
        obtain ⟨rfl, rfl⟩ := Prod.mk.inj (Option.some.inj (hnext.symm.trans hnext'))
        rw [hstep, Option.bind_some, ih hrun]
    · rintro read frames rfl
      simp [step?] at hstep

end Reader

namespace Json

open Reader

theorem lexes_of_readFirst? {text : String} {value : Json} {rest : List Char}
    (h : readFirst? text = some (value, rest)) :
    value.depth < depthLimit ∧ Token.Lexes text.toList value.tokens rest := by
  obtain ⟨tokens, stack, hlexes, hrun⟩ := exists_run_of_finish? h
  obtain ⟨hread, hstack⟩ := hrun.readTokens hlexes.isPlain trivial
  obtain rfl : stack = [] := hstack
  have hbounded : [].length + value.depth < depthLimit := hrun.bounded hlexes.isPlain trivial
  obtain rfl : value.tokens = tokens := by
    simpa [readTokens, stackTokens] using hread
  exact ⟨by simpa using hbounded, hlexes⟩

/-- **Reading.** A value is read off exactly the texts that begin with its tokens, unless it is too
deep. -/
theorem readFirst?_eq_some_iff {text : String} {value : Json} {rest : List Char} :
    readFirst? text = some (value, rest) ↔
      value.depth < depthLimit ∧ Token.Lexes text.toList value.tokens rest := by
  refine ⟨lexes_of_readFirst?, fun ⟨hdepth, h⟩ ↦ finish?_of_run h (run_tokens ?_)⟩
  simpa using hdepth

/-- The text is the tokens of the value, gaps aside. -/
def WrittenAs (value : Json) (text : String) : Prop :=
  ∃ rest, Token.Lexes text.toList value.tokens rest ∧ ∀ c ∈ rest, Token.isGap c

/-- **Documents.** A document is the tokens of its value. -/
theorem read?_eq_some_iff {text : String} {value : Json} :
    read? text = some value ↔ value.depth < depthLimit ∧ value.WrittenAs text := by
  rw [read?, Option.bind_eq_some_iff]
  constructor
  · rintro ⟨⟨first, rest⟩, hfirst, hgap⟩
    obtain ⟨hrest, hvalue⟩ := Option.ite_none_right_eq_some.1 hgap
    obtain rfl := Option.some.inj hvalue
    obtain ⟨hdepth, hlexes⟩ := readFirst?_eq_some_iff.1 hfirst
    exact ⟨hdepth, rest, hlexes, List.all_eq_true.1 hrest⟩
  · rintro ⟨hdepth, rest, hlexes, hrest⟩
    exact ⟨(value, rest), readFirst?_eq_some_iff.2 ⟨hdepth, hlexes⟩,
      if_pos (List.all_eq_true.2 hrest)⟩

/-- A text is refused if it is the tokens of no value, or of one that is too deep. -/
theorem read?_eq_none_iff {text : String} :
    read? text = none ↔ ∀ value : Json, value.WrittenAs text → depthLimit ≤ value.depth := by
  simp only [Option.eq_none_iff_forall_ne_some, ne_eq, read?_eq_some_iff, not_and, ← Nat.not_lt]
  exact forall_congr' fun value ↦ imp_not_comm

end Json

end ModelCatalog
