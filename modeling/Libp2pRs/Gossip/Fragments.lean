import Libp2pRs.Gossip.Proto

/-!
# The fragments of an RPC

What an RPC holds is held by its fragments, in the same order: nothing is lost and nothing is sent
twice. `π` is a part of an RPC that is a list.
-/

namespace Libp2pRs.Gossip.Proto

open List

def Rpc.part {γ : Type} (κ : ControlMessage → List γ) (r : Rpc) : List γ := r.control.elim [] κ

def Rpc.ihaves (r : Rpc) : List ControlIHave := r.control.elim [] ControlMessage.ihave

namespace Fragments

variable {α γ : Type} {π : Rpc → List γ} {maxTransmitSize : Nat}

def total (π : Rpc → List γ) (f : Fragments) : List γ := (f.full ++ [f.cur]).flatMap π

theorem total_createOrAdd (hempty : π {} = []) (size : Nat) (f : Fragments) :
    (f.createOrAdd maxTransmitSize size).total π = f.total π := by
  unfold createOrAdd total
  split
  · simp [hempty]
  · rfl

theorem total_modify {g : Rpc → Rpc} {x : List γ} (hg : ∀ r, π (g r) = π r ++ x) (f : Fragments) :
    (f.modify g).total π = f.total π ++ x := by
  unfold modify total
  simp [hg]

theorem total_addItems {size : α → Nat} {add : α → Rpc → Rpc} {x : α → List γ}
    (hempty : π {} = []) (hadd : ∀ a r, π (add a r) = π r ++ x a) {items : List α}
    {f f' : Fragments} (h : f.addItems maxTransmitSize size add items = .ok f') :
    f'.total π = f.total π ++ items.flatMap x := by
  unfold addItems at h
  induction items generalizing f with
  | nil =>
    cases h
    simp
  | cons a items ih =>
    rw [foldlM_cons] at h
    split at h
    · cases h
    · have hrest := ih h
      rw [hrest, total_modify (hadd a), total_createOrAdd hempty, flatMap_cons, append_assoc]

theorem total_addControl {size : α → Nat} {add : α → ControlMessage → ControlMessage}
    {y : List α → List γ} (hempty : π {} = []) (hnil : y [] = [])
    (hcons : ∀ a l, y (a :: l) = y [a] ++ y l)
    (hadd : ∀ a r, π { r with control := some (add a (r.control.getD {})) } = π r ++ y [a])
    (items : List α) (f : Fragments) :
    (f.addControl maxTransmitSize size add items).total π = f.total π ++ y items := by
  unfold addControl
  induction items generalizing f with
  | nil => rw [hnil, append_nil, foldl_nil]
  | cons a items ih =>
    rw [foldl_cons, ih, total_modify (hadd a), total_createOrAdd hempty, append_assoc, ← hcons]

end Fragments

def Fragments.finish (maxTransmitSize : Nat) (f : Fragments) (control : ControlMessage) :
    Fragments :=
  if maxTransmitSize < control.encodedLen + 2 then
    let f := f.addControl maxTransmitSize ControlIHave.encodedLen
      (fun i c => { c with ihave := c.ihave ++ [i] }) control.ihave
    let f := f.addControl maxTransmitSize ControlIWant.encodedLen
      (fun i c => { c with iwant := c.iwant ++ [i] }) control.iwant
    let f := f.addControl maxTransmitSize ControlGraft.encodedLen
      (fun g c => { c with graft := c.graft ++ [g] }) control.graft
    f.addControl maxTransmitSize ControlPrune.encodedLen
      (fun p c => { c with prune := c.prune ++ [p] }) control.prune
  else
    (f.createOrAdd maxTransmitSize control.encodedLen).modify
      (fun r => { r with control := some control })

variable {rpc : Rpc} {messages : List Rpc}

/-- An RPC that is small enough is its own fragment. Otherwise the messages are added first, then
the subscriptions and the control message. -/
theorem fragmentMessage_eq_ok {maxTransmitSize : Nat}
    (h : fragmentMessage maxTransmitSize rpc = .ok messages) :
    messages = [rpc] ∨ ∃ f₁ f₂ : Fragments, Fragments.addItems maxTransmitSize Message.encodedLen
        (fun m r => { r with publish := r.publish ++ [m] }) ⟨[], {}⟩ rpc.publish = .ok f₁ ∧
      f₁.addItems maxTransmitSize SubOpts.encodedLen
        (fun s r => { r with subscriptions := r.subscriptions ++ [s] }) rpc.subscriptions = .ok f₂ ∧
      messages = (rpc.control.elim f₂ (f₂.finish maxTransmitSize)).full ++
        [(rpc.control.elim f₂ (f₂.finish maxTransmitSize)).cur] := by
  unfold fragmentMessage at h
  split at h
  · cases h
    exact Or.inl rfl
  · right
    cases h₁ : Fragments.addItems maxTransmitSize Message.encodedLen
        (fun m r => { r with publish := r.publish ++ [m] }) ⟨[], {}⟩ rpc.publish with
    | error e => simp [h₁, bind, Except.bind] at h
    | ok f₁ =>
      cases h₂ : f₁.addItems maxTransmitSize SubOpts.encodedLen
          (fun s r => { r with subscriptions := r.subscriptions ++ [s] }) rpc.subscriptions with
      | error e => simp [h₁, h₂, bind, Except.bind] at h
      | ok f₂ =>
        refine ⟨f₁, f₂, rfl, h₂, ?_⟩
        simp only [h₁, h₂, bind, Except.bind, pure, Except.pure, Except.ok.injEq] at h
        rw [← h]
        cases rpc.control <;> rfl

section Parts

variable {γ : Type} {π : Rpc → List γ} {maxTransmitSize : Nat}

theorem total_control (maxTransmitSize : Nat) (hπ : ∀ r c, π { r with control := c } = π r) (hempty : π {} = [])
    (f : Fragments) (control : Option ControlMessage) :
    (control.elim f (f.finish maxTransmitSize)).total π = f.total π := by
  have hadd : ∀ c r, π { r with control := c } = π r ++ [] := by simp [hπ]
  cases control with
  | none => rfl
  | some control =>
    change (f.finish maxTransmitSize control).total π = _
    unfold Fragments.finish
    split
    · simp [Fragments.total_addControl (y := fun _ => []) hempty rfl (fun _ _ => rfl) fun _ r => hadd _ r]
    · rw [Fragments.total_modify (hadd _), Fragments.total_createOrAdd hempty, append_nil]

def ControlMessage.append (c d : ControlMessage) : ControlMessage :=
  ⟨c.ihave ++ d.ihave, c.iwant ++ d.iwant, c.graft ++ d.graft, c.prune ++ d.prune⟩

section Control

variable {κ : ControlMessage → List γ} (hκ : ∀ c d, κ (c.append d) = κ c ++ κ d) (hnil : κ {} = [])

include hκ hnil

theorem Fragments.part_addControl
    {add : α → ControlMessage → ControlMessage} (e : List α → ControlMessage) (hempty : e [] = {})
    (he : ∀ a l, e (a :: l) = (e [a]).append (e l)) (hadd : ∀ a c, add a c = c.append (e [a]))
    (items : List α) (f : Fragments) :
    (f.addControl maxTransmitSize size add items).total (Rpc.part κ) =
      f.total (Rpc.part κ) ++ κ (e items) := by
  apply total_addControl (y := κ ∘ e) rfl
  · exact (congrArg κ hempty).trans hnil
  · exact fun a l => (congrArg κ (he a l)).trans (hκ _ _)
  · rintro a ⟨subscriptions, publish, control⟩
    change κ _ = _ ++ κ _
    rw [hadd, hκ]
    cases control with
    | none => exact congrArg (· ++ _) hnil
    | some c => rfl

theorem Fragments.part_finish {f : Fragments} (hf : f.total (Rpc.part κ) = [])
    (control : ControlMessage) :
    (f.finish maxTransmitSize control).total (Rpc.part κ) = κ control := by
  unfold finish
  split
  · rw [part_addControl hκ hnil ({ prune := · }) rfl fun _ _ => rfl,
      part_addControl hκ hnil ({ graft := · }) rfl fun _ _ => rfl,
      part_addControl hκ hnil ({ iwant := · }) rfl fun _ _ => rfl,
      part_addControl hκ hnil ({ ihave := · }) rfl fun _ _ => rfl, hf, nil_append, ← hκ, ← hκ,
      ← hκ]
    all_goals simp [ControlMessage.append]
  · have hcreate : (f.createOrAdd maxTransmitSize control.encodedLen).total (Rpc.part κ) = [] :=
      (total_createOrAdd rfl _ f).trans hf
    generalize f.createOrAdd maxTransmitSize control.encodedLen = f' at hcreate ⊢
    have hfull : f'.full.flatMap (Rpc.part κ) = [] := by
      simp only [total, flatMap_append, append_eq_nil_iff] at hcreate
      exact hcreate.1
    simp [total, modify, hfull, Rpc.part]

end Control

theorem publish_fragmentMessage (h : fragmentMessage maxTransmitSize rpc = .ok messages) :
    messages.flatMap Rpc.publish = rpc.publish := by
  rcases fragmentMessage_eq_ok h with rfl | ⟨f₁, f₂, h₁, h₂, rfl⟩
  · simp
  · have ht₁ := Fragments.total_addItems (π := Rpc.publish) (x := fun m => [m]) rfl (by simp) h₁
    have ht₂ := Fragments.total_addItems (π := Rpc.publish) (x := fun _ => []) rfl (by simp) h₂
    have ht := total_control (π := Rpc.publish) maxTransmitSize (fun _ _ => rfl) rfl f₂ rpc.control
    have hnil : rpc.subscriptions.flatMap (fun _ => ([] : List Message)) = [] := by
      simp [flatMap_eq_nil_iff]
    rw [ht₂, ht₁, hnil, append_nil] at ht
    simpa [Fragments.total] using ht

theorem subscriptions_fragmentMessage (h : fragmentMessage maxTransmitSize rpc = .ok messages) :
    messages.flatMap Rpc.subscriptions = rpc.subscriptions := by
  rcases fragmentMessage_eq_ok h with rfl | ⟨f₁, f₂, h₁, h₂, rfl⟩
  · simp
  · have ht₁ := Fragments.total_addItems (π := Rpc.subscriptions) (x := fun _ => []) rfl (by simp) h₁
    have ht₂ := Fragments.total_addItems (π := Rpc.subscriptions) (x := fun s => [s]) rfl (by simp) h₂
    have ht := total_control (π := Rpc.subscriptions) maxTransmitSize (fun _ _ => rfl) rfl f₂
      rpc.control
    have hnil : rpc.publish.flatMap (fun _ => ([] : List SubOpts)) = [] := by
      simp [flatMap_eq_nil_iff]
    rw [ht₂, ht₁, hnil, append_nil] at ht
    simpa [Fragments.total] using ht

theorem part_fragmentMessage {κ : ControlMessage → List γ} (hκ : ∀ c d, κ (c.append d) = κ c ++ κ d)
    (hnil : κ {} = []) (h : fragmentMessage maxTransmitSize rpc = .ok messages) :
    messages.flatMap (Rpc.part κ) = rpc.part κ := by
  rcases fragmentMessage_eq_ok h with rfl | ⟨f₁, f₂, h₁, h₂, rfl⟩
  · simp
  · have ht₁ := Fragments.total_addItems (π := Rpc.part κ) (x := fun _ => []) rfl
      (by simp [Rpc.part]) h₁
    have ht₂ := Fragments.total_addItems (π := Rpc.part κ) (x := fun _ => []) rfl
      (by simp [Rpc.part]) h₂
    have hnone : f₂.total (Rpc.part κ) = [] := by
      rw [ht₂, ht₁]
      simp [Fragments.total, Rpc.part]
    cases hcontrol : rpc.control with
    | none =>
      rw [Rpc.part, hcontrol]
      exact hnone
    | some control =>
      rw [Rpc.part, hcontrol]
      exact Fragments.part_finish hκ hnil hnone control

theorem ihaves_fragmentMessage (h : fragmentMessage maxTransmitSize rpc = .ok messages) :
    messages.flatMap Rpc.ihaves = rpc.ihaves :=
  part_fragmentMessage (fun _ _ => rfl) rfl h

/-- The fragments of an RPC hold its messages, its subscriptions and the items of its control message, in
the same order, and nothing else. -/
theorem fragments_hold_rpc {rpc : Rpc} {messages : List Rpc}
    (h : fragmentMessage maxTransmitSize rpc = .ok messages) :
    messages.flatMap Rpc.publish = rpc.publish ∧
      messages.flatMap Rpc.subscriptions = rpc.subscriptions ∧
      messages.flatMap (Rpc.part ControlMessage.ihave) = rpc.part ControlMessage.ihave ∧
      messages.flatMap (Rpc.part ControlMessage.iwant) = rpc.part ControlMessage.iwant ∧
      messages.flatMap (Rpc.part ControlMessage.graft) = rpc.part ControlMessage.graft ∧
      messages.flatMap (Rpc.part ControlMessage.prune) = rpc.part ControlMessage.prune := by
  have hpart : ∀ {γ : Type} {κ : ControlMessage → List γ}, (∀ c d, κ (c.append d) = κ c ++ κ d) →
      κ {} = [] → messages.flatMap (Rpc.part κ) = rpc.part κ :=
    fun hκ hnil => part_fragmentMessage hκ hnil h
  exact ⟨publish_fragmentMessage h, subscriptions_fragmentMessage h, hpart (fun _ _ => rfl) rfl,
    hpart (fun _ _ => rfl) rfl, hpart (fun _ _ => rfl) rfl, hpart (fun _ _ => rfl) rfl⟩

/-- Two GRAFTs that do not fit into one RPC. -/
theorem two_grafts_split :
    ∃ messages, fragmentMessage 100
        { control := some { graft := List.replicate 2 ⟨some (List.replicate 90 0)⟩ } } = .ok messages ∧
      messages.length = 2 ∧
      messages.flatMap (Rpc.part ControlMessage.graft) = List.replicate 2 ⟨some (List.replicate 90 0)⟩ := by
  have h : fragmentMessage 100
      { control := some { graft := replicate 2 ⟨some (replicate 90 0)⟩ } } =
        .ok (replicate 2 { control := some { graft := [⟨some (replicate 90 0)⟩] } }) := by
    decide
  exact ⟨_, h, rfl, (fragments_hold_rpc h).2.2.2.2.1⟩

end Parts

end Libp2pRs.Gossip.Proto
