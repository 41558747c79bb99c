import Storyline.Compile
import Storyline.Proofs.Blocks.Crossing
import Storyline.Proofs.Slots

namespace Storyline.Build

open Script

variable {α β : Type} {a b : List (Option Nat)}

/-- `m` stops as unfinished only at one of the cuts noted, and never gets past one. -/
def Links (gaps : List (Option Nat)) (m : Build α) : Prop :=
  ∀ story, Yields (fun e => e = .unfinished → none ∈ gaps) (fun _ _ => none ∉ gaps) m story

namespace Links

theorem pure (x : α) : Links [] (pure x : Build α) := fun _ => Yields.pure (by simp)

theorem bind {m : Build α} {f : α → Build β} (hm : Links a m) (hf : ∀ x, Links b (f x)) :
    Links (a ++ b) (m >>= f) := by
  intro story
  have hm : Yields (fun e => e = .unfinished → none ∈ a ++ b) (fun _ _ => none ∉ a) m story := by
    have := hm story
    unfold Yields at this ⊢
    split
    · next h => rwa [h] at this
    · next h =>
      rw [h] at this
      exact fun he => List.mem_append_left _ (this he)
  refine Yields.bind hm fun x after hx => ?_
  have := hf x after
  unfold Yields at this ⊢
  split
  · next h =>
    rw [h] at this
    simpa [hx] using this
  · next h =>
    rw [h] at this
    exact fun he => List.mem_append_right _ (this he)

/-- A step that meets no cut comes first. -/
theorem step {m : Build α} {f : α → Build β} (hm : Links [] m) (hf : ∀ x, Links b (f x)) :
    Links b (m >>= f) := bind hm hf

/-- A step that meets no cut comes last. -/
theorem trail {m : Build α} {f : α → Build β} (hm : Links a m) (hf : ∀ x, Links [] (f x)) :
    Links a (m >>= f) := by
  have := bind hm hf
  rwa [List.append_nil] at this

theorem report (pos : Position) (mistake : Mistake) : Links [] (report pos mistake) :=
  fun _ => yields_report (by simp)

theorem addSlot (name : String) (slot : Slot) : Links [] (addSlot name slot) :=
  fun _ => yields_addSlot (fun _ => by simp) (fun _ _ _ _ _ => by simp) fun _ _ _ _ _ h => by cases h

theorem discard (id : NodeId) : Links [] (discard id) :=
  fun _ => yields_discard (fun _ _ => by simp) fun _ => by simp

theorem modifyBody (id : NodeId) (f : Body → Body) : Links [] (modifyBody id f) :=
  fun _ => yields_modifyBody (fun _ _ => by simp) (fun _ _ => by simp) fun _ => by simp

theorem story : Links [] story := fun _ => by simp [Yields, Build.story]

theorem tieEnd (target : Target) (loose : LooseEnd) : Links [] (tieEnd target loose) :=
  fun _ => yields_tieEnd (fun _ => by simp) (fun _ _ _ => by simp) (fun _ _ _ => by simp)
    (fun _ _ _ => by simp) (fun _ _ _ _ h => by cases h) fun _ _ _ h => by cases h

theorem tie (target : Target) (ends : List LooseEnd) : Links [] (tie target ends) := by
  induction ends with
  | nil => exact pure ()
  | cons loose rest ih => exact step (tieEnd target loose) fun _ => ih

theorem arrive (front : Front) (body : Body) (pos : Position) : Links [] (arrive front body pos) :=
  step (addSlot _ _) fun id => step (tie _ _) fun _ => pure id

theorem claim (name : String) (seen : Position) : Links [] (claim name seen) := by
  refine step story fun story => ?_
  split
  · exact step (report seen _) fun _ => pure _
  split
  · exact step (report seen _) fun _ => pure _
  · exact pure name

theorem enterLabel (front : Front) (name : String) (seen pos : Position) :
    Links [] (enterLabel front name seen pos) :=
  step (claim name seen) fun _ => step (addSlot _ _) fun _ => step (tie _ _) fun _ => pure _

theorem guards (pos : Position) (guards : List Expr) (path : Path) (rets : List LooseEnd) :
    Links [] (Build.guards pos guards path rets) := by
  induction guards generalizing path rets with
  | nil => exact pure _
  | cons guard rest ih => exact step (arrive _ _ pos) fun id => step (ih _ _) fun _ => pure _

theorem chain (pos : Position) (assignments : List Assignment) (path : Path)
    (rets : List LooseEnd) : Links [] (chain pos assignments path rets) := by
  induction assignments generalizing path rets with
  | nil => exact pure _
  | cons assignment rest ih => exact step (arrive _ _ pos) fun id => ih _ _

theorem consequences (pos : Position) (assignments : List Assignment) (draft : Draft) :
    Links [] (consequences pos assignments draft) := by
  unfold Build.consequences
  split
  · exact pure draft
  · exact step (chain pos assignments draft.path []) fun _ => step (tie _ _) fun _ => pure _

theorem fileSegment (role : Role) (isEmpty : Bool) (entry : NodeId) (draft : Draft) :
    Links [] (fileSegment role isEmpty entry draft) := by
  unfold Build.fileSegment
  split
  · exact step (discard entry) fun _ => pure draft
  · exact pure _

theorem settle (role : Role) (last : Bool) (entry : NodeId) (front : Front) (draft : Draft) :
    Links [] (settle role last entry front draft) := by
  refine step story fun story => step (fileSegment _ _ _ _) fun filed => ?_
  dsimp only
  split
  · exact pure _
  · exact step (tie _ _) fun _ => pure _

theorem conclude (pos : Position) (draft : Draft) : Links [] (conclude pos draft) := by
  unfold Build.conclude
  split
  · exact pure draft
  · exact step (addSlot _ _) fun _ => pure _

mutual

theorem item (i : Item) (front : Front) : Links i.gaps (Build.item i front) := by
  cases i with
  | report d => exact step (report _ _) fun _ => pure front
  | cut => exact fun _ _ => List.mem_singleton_self _
  | passed left => exact fun _ => Yields.pure (by simp [Item.gaps])
  | content pos c => exact step (arrive _ _ _) fun _ => pure _
  | ask pos => exact step (arrive _ _ _) fun _ => pure _
  | leave => exact step (tie _ _) fun _ => pure _
  | goto label => exact step (tie _ _) fun _ => pure _
  | call pos label args => exact step (arrive _ _ _) fun _ => pure _
  | label pos name seen => exact enterLabel front name seen pos
  | loop pos body =>
    refine step (addSlot _ _) fun entry => step (tie _ _) fun _ => ?_
    exact trail (thread body _) fun after => step (tie _ _) fun _ => pure _
  | define pos name params seen body =>
    refine step (claim name seen) fun label => step (addSlot _ _) fun id => ?_
    exact trail (thread body _) fun after => step (tie _ _) fun _ => step (tie _ _) fun _ => pure _
  | jump pos condition yes no =>
    refine step (arrive _ _ _) fun id => ?_
    exact bind (thread yes _) fun yes => trail (thread no _) fun no => pure _
  | switch pos selection found =>
    exact step (arrive _ _ _) fun id => trail (cases id 0 found _) fun after => pure _
  | option pos leader terms parts =>
    refine step (guards _ _ _ _) fun _ => step (arrive _ _ _) fun id => ?_
    refine step (consequences _ _ _) fun draft => trail (segments parts draft) fun draft => ?_
    exact step (conclude pos draft) fun draft => step (modifyBody _ _) fun _ => pure _

theorem thread (items : List Item) (front : Front) :
    Links (gaps items) (Build.thread items front) := by
  cases items with
  | nil => exact pure front
  | cons i rest => exact bind (item i front) fun front => thread rest front

theorem cases (id : NodeId) (index : Nat) (found : List Case) (path : Path) :
    Links (caseGaps found) (Build.cases id index found path) := by
  cases found with
  | nil => exact pure _
  | cons c rest =>
    obtain ⟨weight, body⟩ := c
    exact bind (thread body _) fun front => trail (cases id (index + 1) rest _) fun after => pure _

theorem segments (parts : List Segment) (draft : Draft) :
    Links (segmentGaps parts) (Build.segments parts draft) := by
  cases parts with
  | nil => exact pure draft
  | cons part rest =>
    obtain ⟨pos, role, body⟩ := part
    refine step (addSlot _ _) fun entry => bind (thread body _) fun front => ?_
    exact step (settle _ _ _ _ _) fun draft => segments rest draft

end

theorem whole (start : String) (pos : Position) (items : Script) :
    Links (gaps items) (Build.whole start pos items) :=
  step (addSlot _ _) fun _ => thread items _

theorem close (front : Front) : Links [] (Build.close front) :=
  step (tie _ _) fun _ => step (tie _ _) fun _ => fun _ => by simp [Yields, Build.check]

end Links

end Storyline.Build
