import Mathlib.Data.List.Induction
import Scaffold.Proofs.Scanning

/-!
# Values are read back from their texts

The tokens of a value lead the reader from a place where a value is due to the
delivery of that value, whatever containers are open around it. This is an induction
over values whose cases are those of `Value.tokens`: between two items and between
two members the reader waits for the rest of a list, so the lists of items and of
members have a lemma of their own with what was read before as a parameter.

What is delivered is `Value.readBack`. It differs from the value in two ways, which
are all that a text does not keep: members stand in ascending order of their keys
with the last one counting for each of them, and a number is what its text reads as.
A value without doubles whose members are in order is therefore read back as
itself; `Value.Kept` says so for doubles too as long as their texts are exact.
-/

namespace Scaffold.Json

mutual

/-- How many containers are open around the innermost part of a value. -/
def Value.depth : Value → Nat
  | .null | .bool _ | .number _ | .string _ => 0
  | .array items => itemsDepth items + 1
  | .object members => membersDepth members + 1

def itemsDepth : List Value → Nat
  | [] => 0
  | item :: rest => max item.depth (itemsDepth rest)

def membersDepth : List (String × Value) → Nat
  | [] => 0
  | (_, value) :: rest => max value.depth (membersDepth rest)

end

mutual

/-- The value as which the text of a value is read. -/
def Value.readBack : Value → Value
  | .null => .null
  | .bool b => .bool b
  | .number n => .number n.readBack
  | .string s => .string s
  | .array items => .array (readBackItems items)
  | .object members => .ofMembers (readBackMembers members)

def readBackItems : List Value → List Value
  | [] => []
  | item :: rest => item.readBack :: readBackItems rest

def readBackMembers : List (String × Value) → List (String × Value)
  | [] => []
  | (key, value) :: rest => (key, value.readBack) :: readBackMembers rest

end

theorem readBackItems_eq_map (items : List Value) :
    readBackItems items = items.map Value.readBack := by
  induction items with
  | nil => rfl
  | cons item rest ih => rw [readBackItems, ih, List.map_cons]

theorem readBackMembers_eq_map (members : List (String × Value)) :
    readBackMembers members = members.map fun member => (member.1, member.2.readBack) := by
  induction members with
  | nil => rfl
  | cons member rest ih => rw [readBackMembers, ih, List.map_cons]

theorem lookup_map_snd {f : α → β} (key : String) (members : List (String × α)) :
    (members.map fun member => (member.1, f member.2)).lookup key =
      (members.lookup key).map f := by
  induction members with
  | nil => rfl
  | cons first rest ih =>
      rw [List.map_cons, List.lookup_cons, List.lookup_cons, ih]
      split
      · rfl
      · rfl

/-- Of several settings for a key the last one counts. -/
theorem lookup_membersOf (key : String) (settings : List (String × α)) :
    (membersOf settings).lookup key = settings.reverse.lookup key := by
  induction settings using List.reverseRecOn with
  | nil => rfl
  | append_singleton settings setting ih =>
      obtain ⟨name, value⟩ := setting
      have hlast : membersOf (settings ++ [(name, value)]) =
          setMember name value (membersOf settings) := by
        rw [membersOf, List.foldl_append]
        rfl
      rw [hlast, List.reverse_concat, List.lookup_cons]
      by_cases hname : key = name
      · subst hname
        rw [lookup_setMember_self]
        simp
      · have hdiffers : (key == name) = false := by simpa using hname
        rw [lookup_setMember_of_ne _ _ hname, ih, hdiffers]

theorem lookup_readBack (members : List (String × Value)) (key : String) :
    (membersOf (readBackMembers members)).lookup key =
      (members.reverse.lookup key).map Value.readBack := by
  rw [readBackMembers_eq_map, lookup_membersOf, ← List.map_reverse, lookup_map_snd]

/-- A number that its text stands for: a whole number of a word, or a double that its
text is exact enough for. -/
def Number.isKept : Number → Bool
  | .whole n => decide (-(Nat.pow 2 63 : Int) ≤ n) && decide (n < (Nat.pow 2 64 : Int))
  | .real x => decide (Number.read? (Number.real x).text.toList = some (.real x))

mutual

/-- Whether every number in a value is kept and all members are in order. -/
def Value.isKept : Value → Bool
  | .null | .bool _ | .string _ => true
  | .number n => n.isKept
  | .array items => itemsKept items
  | .object members => decide ((members.map Prod.fst).Pairwise (· < ·)) && membersKept members

def itemsKept : List Value → Bool
  | [] => true
  | item :: rest => item.isKept && itemsKept rest

def membersKept : List (String × Value) → Bool
  | [] => true
  | (_, value) :: rest => value.isKept && membersKept rest

end

theorem Number.readBack_of_isKept {n : Number} (h : n.isKept = true) : n.readBack = n := by
  cases n with
  | whole n =>
      obtain ⟨hlow, hhigh⟩ := Bool.and_eq_true _ _ |>.mp h
      rw [readBack, read?_text_whole (of_decide_eq_true hlow) (of_decide_eq_true hhigh)]
      rfl
  | real x =>
      rw [readBack, of_decide_eq_true h]
      rfl

theorem setMember_of_forall_lt {key : String} {value : α} {members : List (String × α)}
    (h : ∀ member ∈ members, member.1 < key) :
    setMember key value members = members ++ [(key, value)] := by
  induction members with
  | nil => rfl
  | cons first rest ih =>
      obtain ⟨hfirst, hrest⟩ := List.forall_mem_cons.mp h
      rw [setMember, if_neg (String.lt_asymm hfirst), if_neg, ih hrest, List.cons_append]
      intro heq
      exact String.lt_irrefl _ (heq ▸ hfirst)

theorem membersOf_of_pairwise {settings : List (String × α)}
    (h : (settings.map Prod.fst).Pairwise (· < ·)) : membersOf settings = settings := by
  have hfoldl : ∀ members : List (String × α),
      (∀ member ∈ members, ∀ setting ∈ settings, member.1 < setting.1) →
        settings.foldl (fun members setting => setMember setting.1 setting.2 members) members =
          members ++ settings := by
    induction settings with
    | nil => exact fun members _ => (List.append_nil members).symm
    | cons setting rest ih =>
        intro members hbelow
        obtain ⟨hfirst, hrest⟩ := List.pairwise_cons.mp h
        rw [List.foldl_cons, setMember_of_forall_lt fun member hmember =>
          hbelow member hmember setting List.mem_cons_self, ih hrest]
        · rw [List.append_assoc]
          rfl
        · intro member hmember other hother
          rcases List.mem_append.mp hmember with hmember | hmember
          · exact hbelow member hmember other (List.mem_cons_of_mem _ hother)
          · rw [List.mem_singleton.mp hmember]
            exact hfirst other.1 (List.mem_map_of_mem hother)
  exact hfoldl [] nofun

mutual

theorem Value.readBack_of_isKept {v : Value} (h : v.isKept = true) : v.readBack = v := by
  match v with
  | .null | .bool _ | .string _ => rfl
  | .number n => rw [Value.readBack, Number.readBack_of_isKept h]
  | .array items => rw [Value.readBack, readBackItems_of_itemsKept h]
  | .object members =>
      obtain ⟨hsorted, hmembers⟩ := Bool.and_eq_true _ _ |>.mp h
      rw [Value.readBack, readBackMembers_of_membersKept hmembers, Value.ofMembers,
        membersOf_of_pairwise (of_decide_eq_true hsorted)]

theorem readBackItems_of_itemsKept {items : List Value} (h : itemsKept items = true) :
    readBackItems items = items := by
  match items with
  | [] => rfl
  | item :: rest =>
      obtain ⟨hitem, hrest⟩ := Bool.and_eq_true _ _ |>.mp h
      rw [readBackItems, Value.readBack_of_isKept hitem, readBackItems_of_itemsKept hrest]

theorem readBackMembers_of_membersKept {members : List (String × Value)}
    (h : membersKept members = true) : readBackMembers members = members := by
  match members with
  | [] => rfl
  | (key, value) :: rest =>
      obtain ⟨hvalue, hrest⟩ := Bool.and_eq_true _ _ |>.mp h
      rw [readBackMembers, Value.readBack_of_isKept hvalue, readBackMembers_of_membersKept hrest]

end

section Reading

open Reading (deliver open? step)

variable {limit : Nat} {outer : List Frame} {r r' r'' : Reading} {ts ts' : List Token}

/-- Some tokens, as they are read back, take the reader from one place to another. -/
def Reaches (limit : Nat) (r : Reading) (ts : List Token) (r' : Reading) : Prop :=
  (ts.map Token.readBack).foldlM (step limit) r = some r'

theorem Reaches.nil : Reaches limit r [] r :=
  rfl

theorem Reaches.cons {t : Token} (hstep : step limit r t.readBack = some r')
    (h : Reaches limit r' ts r'') : Reaches limit r (t :: ts) r'' := by
  rw [Reaches, List.map_cons, List.foldlM_cons, hstep]
  exact h

theorem Reaches.append (h : Reaches limit r ts r') (h' : Reaches limit r' ts' r'') :
    Reaches limit r (ts ++ ts') r'' := by
  rw [Reaches] at h
  rw [Reaches, List.map_append, List.foldlM_append, h]
  exact h'

theorem exists_tokens_eq_cons (v : Value) :
    ∃ t ts, v.tokens = t :: ts ∧ t.readBack ≠ .closeArray := by
  cases v with
  | null | bool b | number n | string s => exact ⟨_, _, rfl, nofun⟩
  | array items =>
      cases items with
      | nil => exact ⟨_, _, rfl, nofun⟩
      | cons item rest => exact ⟨_, _, rfl, nofun⟩
  | object members =>
      cases members with
      | nil => exact ⟨_, _, rfl, nofun⟩
      | cons member rest => exact ⟨_, _, rfl, nofun⟩

theorem step_itemOrClose {t : Token} (h : t ≠ .closeArray) :
    step limit (.itemOrClose outer) t = step limit (.value (.array [] :: outer)) t := by
  cases t with
  | closeArray => exact absurd rfl h
  | _ => rfl

/-- Where an item or the end of an array may come, a value is taken as the first item. -/
theorem foldlM_itemOrClose (v : Value) :
    (v.tokens.map Token.readBack).foldlM (step limit) (.itemOrClose outer) =
      (v.tokens.map Token.readBack).foldlM (step limit) (.value (.array [] :: outer)) := by
  obtain ⟨t, ts, htokens, ht⟩ := exists_tokens_eq_cons v
  rw [htokens, List.map_cons, List.foldlM_cons, List.foldlM_cons, step_itemOrClose ht]

theorem reaches_itemOrClose {v : Value}
    (h : Reaches limit (.value (.array [] :: outer)) v.tokens r) :
    Reaches limit (.itemOrClose outer) v.tokens r :=
  (foldlM_itemOrClose v).trans h

theorem step_openArray (h : outer.length < limit) :
    step limit (.value outer) (Token.readBack .openArray) = some (.itemOrClose outer) :=
  if_pos h

theorem step_openObject (h : outer.length < limit) :
    step limit (.value outer) (Token.readBack .openObject) = some (.keyOrClose outer) :=
  if_pos h

mutual

/-- The tokens of a value end in its delivery to the containers around it. -/
theorem reaches_tokens (v : Value) (outer : List Frame) (h : outer.length + v.depth ≤ limit) :
    Reaches limit (.value outer) v.tokens (deliver v.readBack outer) := by
  match v with
  | .null | .bool _ | .number _ | .string _ => exact .cons rfl .nil
  | .array [] =>
      rw [Value.depth] at h
      exact .cons (step_openArray (by omega)) (.cons rfl .nil)
  | .array (item :: rest) =>
      rw [Value.depth, itemsDepth] at h
      have hitem := reaches_tokens item (.array [] :: outer) (by rw [List.length_cons]; omega)
      have hrest := reaches_restTokens rest [item.readBack] outer (by omega)
      exact .cons (step_openArray (by omega)) ((reaches_itemOrClose hitem).append hrest)
  | .object [] =>
      rw [Value.depth] at h
      exact .cons (step_openObject (by omega)) (.cons rfl .nil)
  | .object ((key, value) :: rest) =>
      rw [Value.depth, membersDepth] at h
      have hvalue := reaches_tokens value (.object [] key :: outer)
        (by rw [List.length_cons]; omega)
      have hrest := reaches_restMemberTokens rest (setMember key value.readBack []) outer
        (by omega)
      exact .cons (step_openObject (by omega)) (.cons rfl (.cons rfl (hvalue.append hrest)))

theorem reaches_restTokens (items before : List Value) (outer : List Frame)
    (h : outer.length + 1 + itemsDepth items ≤ limit) :
    Reaches limit (.afterItem before outer) (restTokens items)
      (deliver (.array (before.reverse ++ readBackItems items)) outer) := by
  match items with
  | [] =>
      rw [readBackItems, List.append_nil]
      exact .cons rfl .nil
  | item :: rest =>
      rw [itemsDepth] at h
      have hitem := reaches_tokens item (.array before :: outer)
        (by rw [List.length_cons]; omega)
      have hrest := reaches_restTokens rest (item.readBack :: before) outer (by omega)
      rw [List.reverse_cons, List.append_assoc] at hrest
      exact .cons rfl (hitem.append hrest)

theorem reaches_restMemberTokens (members before : List (String × Value)) (outer : List Frame)
    (h : outer.length + 1 + membersDepth members ≤ limit) :
    Reaches limit (.afterMember before outer) (restMemberTokens members)
      (deliver (.object ((readBackMembers members).foldl
        (fun members setting => setMember setting.1 setting.2 members) before)) outer) := by
  match members with
  | [] => exact .cons rfl .nil
  | (key, value) :: rest =>
      rw [membersDepth] at h
      have hvalue := reaches_tokens value (.object before key :: outer)
        (by rw [List.length_cons]; omega)
      have hrest := reaches_restMemberTokens rest (setMember key value.readBack before) outer
        (by omega)
      exact .cons rfl (.cons rfl (.cons rfl (hvalue.append hrest)))

end

/-! ## Nesting too deep

Containers are counted when they are opened. A value that nests too deep is refused at a
bracket somewhere inside it, after all that stands before that bracket was read. What is
refused is therefore shown with what is read, and by the same induction on values. -/

/-- Some tokens, as they are read back, lead the reader nowhere. -/
def Refuses (limit : Nat) (r : Reading) (ts : List Token) : Prop :=
  (ts.map Token.readBack).foldlM (step limit) r = none

theorem Refuses.first {t : Token} (hstep : step limit r t.readBack = none) :
    Refuses limit r (t :: ts) := by
  rw [Refuses, List.map_cons, List.foldlM_cons, hstep]
  rfl

theorem Refuses.cons {t : Token} (hstep : step limit r t.readBack = some r')
    (h : Refuses limit r' ts) : Refuses limit r (t :: ts) := by
  rw [Refuses, List.map_cons, List.foldlM_cons, hstep]
  exact h

theorem Refuses.left (h : Refuses limit r ts) : Refuses limit r (ts ++ ts') := by
  rw [Refuses] at h
  rw [Refuses, List.map_append, List.foldlM_append, h]
  rfl

theorem Reaches.refuses (h : Reaches limit r ts r') (h' : Refuses limit r' ts') :
    Refuses limit r (ts ++ ts') := by
  rw [Reaches] at h
  rw [Refuses, List.map_append, List.foldlM_append, h]
  exact h'

theorem refuses_itemOrClose {v : Value}
    (h : Refuses limit (.value (.array [] :: outer)) v.tokens) :
    Refuses limit (.itemOrClose outer) v.tokens :=
  (foldlM_itemOrClose v).trans h

theorem not_step_openArray (h : ¬ outer.length < limit) :
    step limit (.value outer) (Token.readBack .openArray) = none :=
  if_neg h

theorem not_step_openObject (h : ¬ outer.length < limit) :
    step limit (.value outer) (Token.readBack .openObject) = none :=
  if_neg h

mutual

/-- A value that nests deeper than the containers around it leave room for is refused. -/
theorem refuses_tokens (v : Value) (outer : List Frame) (houter : outer.length ≤ limit)
    (h : limit < outer.length + v.depth) : Refuses limit (.value outer) v.tokens := by
  match v with
  | .null | .bool _ | .number _ | .string _ =>
      rw [Value.depth] at h
      omega
  | .array [] =>
      rw [Value.depth, itemsDepth] at h
      exact .first (not_step_openArray (by omega))
  | .array (item :: rest) =>
      rw [Value.depth, itemsDepth] at h
      by_cases hopen : outer.length < limit
      · refine .cons (step_openArray hopen) ?_
        by_cases hitem : limit < outer.length + 1 + item.depth
        · exact (refuses_itemOrClose (refuses_tokens item (.array [] :: outer) hopen hitem)).left
        · have hreaches : Reaches limit _ _ _ := reaches_tokens item (.array [] :: outer)
            (by rw [List.length_cons]; omega)
          exact (reaches_itemOrClose hreaches).refuses
            (refuses_restTokens rest [item.readBack] outer hopen (by omega))
      · exact .first (not_step_openArray hopen)
  | .object [] =>
      rw [Value.depth, membersDepth] at h
      exact .first (not_step_openObject (by omega))
  | .object ((key, value) :: rest) =>
      rw [Value.depth, membersDepth] at h
      by_cases hopen : outer.length < limit
      · refine .cons (step_openObject hopen) (.cons rfl (.cons rfl ?_))
        by_cases hvalue : limit < outer.length + 1 + value.depth
        · exact (refuses_tokens value (.object [] key :: outer) hopen hvalue).left
        · have hreaches : Reaches limit _ _ _ := reaches_tokens value (.object [] key :: outer)
            (by rw [List.length_cons]; omega)
          exact hreaches.refuses (refuses_restMemberTokens rest (setMember key value.readBack [])
            outer hopen (by omega))
      · exact .first (not_step_openObject hopen)

theorem refuses_restTokens (items before : List Value) (outer : List Frame)
    (houter : outer.length < limit) (h : limit < outer.length + 1 + itemsDepth items) :
    Refuses limit (.afterItem before outer) (restTokens items) := by
  match items with
  | [] =>
      rw [itemsDepth] at h
      omega
  | item :: rest =>
      rw [itemsDepth] at h
      refine .cons rfl ?_
      by_cases hitem : limit < outer.length + 1 + item.depth
      · exact (refuses_tokens item (.array before :: outer) houter hitem).left
      · have hreaches : Reaches limit _ _ _ := reaches_tokens item (.array before :: outer)
          (by rw [List.length_cons]; omega)
        exact hreaches.refuses
          (refuses_restTokens rest (item.readBack :: before) outer houter (by omega))

theorem refuses_restMemberTokens (members before : List (String × Value)) (outer : List Frame)
    (houter : outer.length < limit) (h : limit < outer.length + 1 + membersDepth members) :
    Refuses limit (.afterMember before outer) (restMemberTokens members) := by
  match members with
  | [] =>
      rw [membersDepth] at h
      omega
  | (key, value) :: rest =>
      rw [membersDepth] at h
      refine .cons rfl (.cons rfl (.cons rfl ?_))
      by_cases hvalue : limit < outer.length + 1 + value.depth
      · exact (refuses_tokens value (.object before key :: outer) houter hvalue).left
      · have hreaches : Reaches limit _ _ _ := reaches_tokens value (.object before key :: outer)
          (by rw [List.length_cons]; omega)
        exact hreaches.refuses (refuses_restMemberTokens rest (setMember key value.readBack before)
          outer houter (by omega))

end

end Reading

/-- A text of the tokens of a value is read if it nests no deeper than the limit, and only
then, unless it holds a number that is none for the reader. -/
theorem Value.read?_of_spells {v : Value} {limit : Nat} {text : String}
    (htext : Spells v.tokens text.toList) (hreadable : ∀ t ∈ v.tokens, t.isReadable = true) :
    Value.read? limit text = if v.depth ≤ limit then some v.readBack else none := by
  have hread : Value.read? limit text =
      ((v.tokens.map Token.readBack).foldlM (Reading.step limit) (.value [])).bind
        Reading.complete? := by
    rw [Value.read?, htext.scan hreadable]
    rfl
  rw [hread]
  split
  · next hdepth =>
      have hrun : Reaches limit (.value []) v.tokens (.complete v.readBack) :=
        reaches_tokens v [] (by simpa using hdepth)
      rw [Reaches] at hrun
      rw [hrun]
      rfl
  · next hdepth =>
      have hrun : Refuses limit (.value []) v.tokens :=
        refuses_tokens v [] (Nat.zero_le _) (by simpa using hdepth)
      rw [Refuses] at hrun
      rw [hrun]
      rfl

def charsOf (ts : List Token) : List Char :=
  ts.flatMap fun t => t.text.toList

theorem endsWord_charsOf_restTokens (items : List Value) (cs : List Char) :
    ∀ c ∈ (charsOf (restTokens items) ++ cs).head?, endsWord c = true := by
  cases items with
  | nil => simp [charsOf, restTokens, Token.text, endsWord, mark?]
  | cons item rest => simp [charsOf, restTokens, Token.text, endsWord, mark?]

theorem endsWord_charsOf_restMemberTokens (members : List (String × Value)) (cs : List Char) :
    ∀ c ∈ (charsOf (restMemberTokens members) ++ cs).head?, endsWord c = true := by
  cases members with
  | nil => simp [charsOf, restMemberTokens, Token.text, endsWord, mark?]
  | cons member rest => simp [charsOf, restMemberTokens, Token.text, endsWord, mark?]

/-- A token that is not a word may stand before anything. -/
theorem Spells.cons {t : Token} {ts : List Token} {cs : List Char} (h : Spells ts cs)
    (ht : t.isWord = false) : Spells (t :: ts) (t.text.toList ++ cs) := by
  refine .token (fun hword => ?_) h
  rw [ht] at hword
  cases hword

mutual

theorem spells_tokens (v : Value) {ts : List Token} {cs : List Char} (h : Spells ts cs)
    (hends : ∀ c ∈ cs.head?, endsWord c = true) :
    Spells (v.tokens ++ ts) (charsOf v.tokens ++ cs) := by
  match v with
  | .null | .bool _ | .number _ | .string _ =>
      simpa [Value.tokens, charsOf] using Spells.token (fun _ => hends) h
  | .array [] => simpa [Value.tokens, charsOf] using (h.cons rfl).cons rfl
  | .array (item :: rest) =>
      have hrest := spells_tokens item (spells_restTokens rest h) (endsWord_charsOf_restTokens _ _)
      simpa [Value.tokens, charsOf] using hrest.cons rfl
  | .object [] => simpa [Value.tokens, charsOf] using (h.cons rfl).cons rfl
  | .object ((key, value) :: rest) =>
      have hrest := spells_tokens value (spells_restMemberTokens rest h)
        (endsWord_charsOf_restMemberTokens _ _)
      simpa [Value.tokens, charsOf] using ((hrest.cons rfl).cons rfl).cons rfl

theorem spells_restTokens (items : List Value) {ts : List Token} {cs : List Char}
    (h : Spells ts cs) : Spells (restTokens items ++ ts) (charsOf (restTokens items) ++ cs) := by
  match items with
  | [] => simpa [restTokens, charsOf] using h.cons rfl
  | item :: rest =>
      have hrest := spells_tokens item (spells_restTokens rest h) (endsWord_charsOf_restTokens _ _)
      simpa [restTokens, charsOf] using hrest.cons rfl

theorem spells_restMemberTokens (members : List (String × Value)) {ts : List Token}
    {cs : List Char} (h : Spells ts cs) :
    Spells (restMemberTokens members ++ ts) (charsOf (restMemberTokens members) ++ cs) := by
  match members with
  | [] => simpa [restMemberTokens, charsOf] using h.cons rfl
  | (key, value) :: rest =>
      have hrest := spells_tokens value (spells_restMemberTokens rest h)
        (endsWord_charsOf_restMemberTokens _ _)
      simpa [restMemberTokens, charsOf] using ((hrest.cons rfl).cons rfl).cons rfl

end

/-- The text that is written for a value spells its tokens. -/
theorem Value.spells_text (v : Value) : Spells v.tokens v.text.toList := by
  have htext : v.text.toList = charsOf v.tokens := by
    rw [text, charsOf, String.toList_join, List.flatMap_map]
  simpa [htext] using spells_tokens v .nil nofun

end Scaffold.Json
