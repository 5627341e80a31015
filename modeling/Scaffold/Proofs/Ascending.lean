import Mathlib.Data.List.Sort
import Mathlib.Data.String.Basic
import Scaffold.Json.Document
import Scaffold.Text.Ascending

/-!
# What stands in ascending order

Sets of texts and the members of objects are both kept as ascending lists, and an insertion
leaves them ascending. The keys of an object with one more member are its keys with one more
text, so this has to be shown for texts only.

A document that was read holds no object that is out of order, however deep it stands. The
reader keeps objects that are still open in its stack, so the invariant is about the reader as
a whole: what it has read so far is in order, and so is what it holds open around that. One
lemma says that a token keeps it.
-/

namespace Scaffold.Text

theorem pairwise_insertAscending {name : String} {sorted : List String}
    (h : sorted.Pairwise (· < ·)) : (insertAscending name sorted).Pairwise (· < ·) := by
  induction sorted with
  | nil => simp [insertAscending]
  | cons first rest ih =>
      obtain ⟨hfirst, hrest⟩ := List.pairwise_cons.mp h
      rw [insertAscending]
      split
      · next hlt =>
          refine List.pairwise_cons.mpr ⟨fun other hother => ?_, h⟩
          rcases List.mem_cons.mp hother with rfl | hother
          · exact hlt
          · exact lt_trans hlt (hfirst other hother)
      · next hnot =>
          split
          · exact h
          · next hne =>
              refine List.pairwise_cons.mpr ⟨fun other hother => ?_, ih hrest⟩
              rcases mem_insertAscending.mp hother with rfl | hother
              · exact lt_of_le_of_ne (not_lt.mp hnot) (Ne.symm hne)
              · exact hfirst other hother

/-- A list made ascending is strictly so. -/
theorem pairwise_ascending (names : List String) : (ascending names).Pairwise (· < ·) := by
  suffices h : ∀ sorted : List String, sorted.Pairwise (· < ·) →
      (names.foldl (fun sorted name => insertAscending name sorted) sorted).Pairwise (· < ·) from
    h [] .nil
  induction names with
  | nil => exact fun sorted h => h
  | cons name names ih => exact fun sorted h => ih _ (pairwise_insertAscending h)

theorem nodup_ascending (names : List String) : (ascending names).Nodup :=
  List.nodup_iff_pairwise_ne.mpr ((pairwise_ascending names).imp fun hlt => ne_of_lt hlt)

/-- Lists with the same entries are the same list when made ascending. -/
theorem ascending_congr {names names' : List String} (h : ∀ name, name ∈ names ↔ name ∈ names') :
    ascending names = ascending names' := by
  refine (pairwise_ascending names).eq_of_mem_iff (pairwise_ascending names') fun {name} => ?_
  rw [mem_ascending, mem_ascending, h]

end Scaffold.Text

namespace Scaffold.Json

/-- Members whose keys ascend. -/
def Ascending (members : List (String × α)) : Prop :=
  (members.map Prod.fst).Pairwise (· < ·)

instance (members : List (String × α)) : Decidable (Ascending members) :=
  inferInstanceAs (Decidable ((members.map Prod.fst).Pairwise (· < ·)))

theorem map_fst_setMember (key : String) (value : α) (members : List (String × α)) :
    (setMember key value members).map Prod.fst =
      Text.insertAscending key (members.map Prod.fst) := by
  induction members with
  | nil => rfl
  | cons first rest ih =>
      rw [setMember, List.map_cons, Text.insertAscending]
      split
      · rfl
      · split
        · next heq => rw [List.map_cons, heq]
        · rw [List.map_cons, ih]

theorem Ascending.setMember {members : List (String × α)} (h : Ascending members) (key : String)
    (value : α) : Ascending (setMember key value members) := by
  rw [Ascending, map_fst_setMember]
  exact Text.pairwise_insertAscending h

theorem mem_setMember {key : String} {value : α} {members : List (String × α)}
    {member : String × α} (h : member ∈ setMember key value members) :
    member = (key, value) ∨ member ∈ members := by
  induction members with
  | nil => exact .inl (List.mem_singleton.mp h)
  | cons first rest ih =>
      rw [setMember] at h
      split at h
      · exact List.mem_cons.mp h
      · split at h
        · exact (List.mem_cons.mp h).imp_right (List.mem_cons_of_mem _)
        · rcases List.mem_cons.mp h with rfl | h
          · exact .inr List.mem_cons_self
          · exact (ih h).imp_right (List.mem_cons_of_mem _)

/-- A value in which the members of every object ascend. -/
inductive Value.Ordered : Value → Prop
  | null : Ordered .null
  | bool (b : Bool) : Ordered (.bool b)
  | number (n : Number) : Ordered (.number n)
  | string (s : String) : Ordered (.string s)
  | array {items : List Value} (hitems : ∀ item ∈ items, Ordered item) : Ordered (.array items)
  | object {members : List (String × Value)} (hkeys : Ascending members)
      (hvalues : ∀ member ∈ members, Ordered member.2) : Ordered (.object members)

/-- Ascending members with values in order. -/
structure OrderedMembers (members : List (String × Value)) : Prop where
  keys : Ascending members
  values : ∀ member ∈ members, member.2.Ordered

theorem OrderedMembers.nil : OrderedMembers [] :=
  ⟨.nil, nofun⟩

theorem OrderedMembers.setMember {members : List (String × Value)} {v : Value}
    (h : OrderedMembers members) (key : String) (hv : v.Ordered) :
    OrderedMembers (setMember key v members) := by
  refine ⟨h.keys.setMember key v, fun member hmember => ?_⟩
  rcases mem_setMember hmember with rfl | hmember
  · exact hv
  · exact h.values member hmember

theorem Value.Ordered.members {members : List (String × Value)}
    (h : (Value.object members).Ordered) : OrderedMembers members := by
  cases h with
  | object hkeys hvalues => exact ⟨hkeys, hvalues⟩

/-- An open container with its values in order. -/
def Frame.Ordered : Frame → Prop
  | .array items => ∀ item ∈ items, item.Ordered
  | .object members _ => OrderedMembers members

/-- A reader that holds nothing out of order. -/
def Reading.Ordered : Reading → Prop
  | .value outer | .itemOrClose outer | .keyOrClose outer => ∀ frame ∈ outer, frame.Ordered
  | .afterItem items outer => (∀ item ∈ items, item.Ordered) ∧ ∀ frame ∈ outer, frame.Ordered
  | .key members outer | .colon members _ outer | .afterMember members outer =>
    OrderedMembers members ∧ ∀ frame ∈ outer, frame.Ordered
  | .complete v => v.Ordered

namespace Reading

variable {limit : Nat} {outer : List Frame} {r r' : Reading} {t : Token} {v : Value}

theorem ordered_deliver (hv : v.Ordered) (houter : ∀ frame ∈ outer, frame.Ordered) :
    (deliver v outer).Ordered := by
  cases outer with
  | nil => exact hv
  | cons frame outer =>
      obtain ⟨hframe, hothers⟩ := List.forall_mem_cons.mp houter
      cases frame with
      | array items => exact ⟨List.forall_mem_cons.mpr ⟨hv, hframe⟩, hothers⟩
      | object members name => exact ⟨OrderedMembers.setMember hframe name hv, hothers⟩

theorem ordered_open? (houter : ∀ frame ∈ outer, frame.Ordered)
    (h : open? limit outer t = some r) : r.Ordered := by
  rw [open?.eq_def] at h
  split at h
  · cases h
    exact ordered_deliver .null houter
  · cases h
    exact ordered_deliver (.bool _) houter
  · cases h
    exact ordered_deliver (.number _) houter
  · cases h
    exact ordered_deliver (.string _) houter
  · split at h
    · cases h
      exact houter
    · cases h
  · split at h
    · cases h
      exact houter
    · cases h
  · cases h

/-- No token brings anything out of order. -/
theorem Ordered.step (hr : r.Ordered) (h : step limit r t = some r') : r'.Ordered := by
  have hempty : (Frame.array []).Ordered := nofun
  rw [Reading.step.eq_def] at h
  split at h
  · exact ordered_open? hr h
  · cases h
    exact ordered_deliver (.array nofun) hr
  · exact ordered_open? (List.forall_mem_cons.mpr ⟨hempty, hr⟩) h
  · cases h
    exact List.forall_mem_cons.mpr hr
  · cases h
    exact ordered_deliver (.array fun item hitem => hr.1 item (List.mem_reverse.mp hitem)) hr.2
  · cases h
    exact ordered_deliver (.object .nil nofun) hr
  · cases h
    exact ⟨.nil, hr⟩
  · cases h
    exact hr
  · cases h
    exact List.forall_mem_cons.mpr hr
  · cases h
    exact hr
  · cases h
    exact ordered_deliver (.object hr.1.keys hr.1.values) hr.2
  · cases h

theorem Ordered.foldlM {ts : List Token} (hr : r.Ordered)
    (h : ts.foldlM (Reading.step limit) r = some r') : r'.Ordered := by
  induction ts generalizing r with
  | nil => exact Option.some.inj h ▸ hr
  | cons t ts ih =>
      rw [List.foldlM_cons] at h
      obtain ⟨next, hnext, h⟩ := Option.bind_eq_some_iff.mp h
      exact ih (hr.step hnext) h

end Reading

/-- Whatever a text is read as, it is in order. -/
theorem Value.ordered_of_read? {limit : Nat} {text : String} {v : Value}
    (h : read? limit text = some v) : v.Ordered := by
  obtain ⟨tokens, -, h⟩ := Option.bind_eq_some_iff.mp h
  obtain ⟨final, hfinal, h⟩ := Option.bind_eq_some_iff.mp h
  have hordered : final.Ordered := Reading.Ordered.foldlM (r := .value []) nofun hfinal
  cases final with
  | complete w => exact Option.some.inj h ▸ hordered
  | _ => cases h

end Scaffold.Json
