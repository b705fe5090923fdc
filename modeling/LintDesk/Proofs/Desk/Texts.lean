import LintDesk.Proofs.Desk.PassChanges

/-! # Stored texts

A client opens documents and changes their texts. What a desk stores under a name is what the client
told last, and every snapshot that a notice leads to is the stored one (`NoticeSpec.document?_eq`).
A run in which a text changes has a last change (`last_stores`).
-/

namespace LintDesk.Desk

/-! ### The store -/

/-- Storing a document replaces all that is stored under its name. -/
theorem eq_of_mem_putDocument {d : Desk} {document v : Document}
    (hv : v ∈ (d.putDocument document).visible) (huri : v.uri = document.uri) : v = document := by
  unfold putDocument at hv
  split at hv
  · obtain ⟨v', -, rfl⟩ := List.mem_map.mp hv
    split
    · rfl
    · next hne =>
        rw [if_neg hne] at huri
        exact absurd (beq_iff_eq.mpr huri) hne
  · next hnone =>
      rcases List.mem_append.mp hv with hv | hv
      · have hsome : (d.document? document.uri).isSome = true :=
          List.find?_isSome.mpr ⟨v, hv, beq_iff_eq.mpr huri⟩
        exact absurd hsome hnone
      · exact List.mem_singleton.mp hv

theorem mem_putDocument (d : Desk) (document : Document) :
    document ∈ (d.putDocument document).visible := by
  unfold putDocument
  split
  · next hsome =>
      obtain ⟨v, hv, huri⟩ := List.find?_isSome.mp hsome
      exact List.mem_map.mpr ⟨v, hv, by rw [if_pos huri]⟩
  · exact List.mem_append_right _ (List.mem_singleton_self _)

theorem document?_putDocument (d : Desk) (document : Document) :
    (d.putDocument document).document? document.uri = some document := by
  have hsome : ((d.putDocument document).document? document.uri).isSome = true :=
    List.find?_isSome.mpr ⟨document, mem_putDocument d document, beq_iff_eq.mpr rfl⟩
  obtain ⟨v, hv⟩ := Option.isSome_iff_exists.mp hsome
  rw [hv, eq_of_mem_putDocument (List.mem_of_find?_eq_some hv) (document?_uri hv)]

theorem document?_congr {d d' : Desk} (h : d'.visible = d.visible) (uri : Url) :
    d'.document? uri = d.document? uri := by
  unfold document?
  rw [h]

theorem visible_didChange (d : Desk) (document : Document) :
    (d.didChange document).visible = d.visible :=
  (didChange_passChanges (S := fun _ => True) d trivial).visible.1

theorem visible_cursorMoved (d : Desk) (document : Document) :
    (d.cursorMoved document).visible = d.visible :=
  (cursorMoved_passChanges (S := fun _ => True) d trivial).visible.1

theorem runMode_putDocument (d : Desk) (document : Document) (uri : Url) :
    ((d.putDocument document).runMode uri).1 = (d.runMode uri).1 := by
  obtain ⟨documents, heq, -⟩ := putDocument_eq d document
  rw [heq]
  unfold runMode
  dsimp only
  cases d.runModes.lookup uri <;> rfl

theorem NoticeSpec.eq_or_edits {d d' : Desk} {uri : Url} {version : Int} {texts : List String}
    (h : NoticeSpec d (.changed uri version texts) d') :
    d' = d ∨ ∃ document : Document, document.uri = uri ∧
      d' = (d.putDocument document).didChange document := by
  cases h with
  | idles => exact .inl rfl
  | edits hs _ => exact .inr ⟨_, (notice_names hs).symm, rfl⟩

/-- The snapshot that a notice leads to is the one that is stored then. -/
theorem NoticeSpec.document?_eq {d d' : Desk} {notice : Server.Notice} {document : Document}
    (h : NoticeSpec d notice d') (hsnapshot : notice.snapshot? d = some document) :
    d'.document? document.uri = some document := by
  cases h with
  | idles hs =>
      rw [hs] at hsnapshot
      cases hsnapshot
  | opens v =>
      cases hsnapshot
      exact document?_putDocument d document
  | edits hs _ =>
      obtain rfl := Option.some.inj (hs.symm.trans hsnapshot)
      exact (document?_congr (visible_didChange _ _) _).trans (document?_putDocument d _)
  | saves hs =>
      obtain rfl := Option.some.inj (hs.symm.trans hsnapshot)
      exact document?_uri hs ▸ hs
  | savesText hs _ =>
      obtain rfl := Option.some.inj (hs.symm.trans hsnapshot)
      exact document?_putDocument d _
  | moves hs =>
      obtain rfl := Option.some.inj (hs.symm.trans hsnapshot)
      exact (document?_congr (visible_cursorMoved _ _) _).trans (document?_uri hs ▸ hs)
  | points hs =>
      cases hs.symm.trans hsnapshot
  | _ => cases hsnapshot

/-! ### Changes of a text -/

/-- The text of an open document. -/
def text? (d : Desk) (uri : Url) : Option String :=
  (d.document? uri).map Document.text

/-- A text of a document is stored: the document is opened, or edited while its edits are linted as
they are typed. -/
inductive Stores (uri : Url) (d : Desk) : Desk → Prop where
  | opens (document : Document) (h : document.uri = uri) :
      Stores uri d (Server.Notice.apply d (.opened document))
  | edits (version : Int) (texts : List String) (h : (d.runMode uri).1 = .onType) :
      Stores uri d (Server.Notice.apply d (.changed uri version texts))

/-- A move of a client that changes the text of a document, if at all, by storing it so that it is
linted as it is typed; it saves what is stored, and does not close the document. -/
structure TypesText (uri : Url) (d d' : Desk) : Prop where
  move : Move HostEvent.IsClient d d'
  stores : d'.text? uri ≠ d.text? uri → Stores uri d d'

/-- A move of a client that leaves the text of a document as it is. -/
structure KeepsText (uri : Url) (d d' : Desk) : Prop where
  move : Move HostEvent.IsClient d d'
  text : d'.text? uri = d.text? uri

theorem TypesText.run {uri : Url} {d d' : Desk} (h : Relation.ReflTransGen (TypesText uri) d d') :
    Run HostEvent.IsClient d d' :=
  Relation.ReflTransGen.mono (fun _ _ ht => ht.move) _ _ h

theorem KeepsText.run {uri : Url} {d d' : Desk} (h : Relation.ReflTransGen (KeepsText uri) d d') :
    Run HostEvent.IsClient d d' :=
  Relation.ReflTransGen.mono (fun _ _ hs => hs.move) _ _ h

/-- The text of a document is never changed, or there is a last change of it. -/
theorem last_stores {uri : Url} {d₀ d : Desk} (hr : Relation.ReflTransGen (TypesText uri) d₀ d) :
    Relation.ReflTransGen (KeepsText uri) d₀ d ∨
    ∃ d₁ d₂, Relation.ReflTransGen (TypesText uri) d₀ d₁ ∧ TypesText uri d₁ d₂ ∧
      d₂.text? uri ≠ d₁.text? uri ∧ Relation.ReflTransGen (KeepsText uri) d₂ d := by
  induction hr with
  | refl => exact .inl .refl
  | @tail d₁ d₂ hprev ht ih =>
      by_cases htext : d₂.text? uri = d₁.text? uri
      · have hkeeps : KeepsText uri d₁ d₂ := ⟨ht.move, htext⟩
        rcases ih with ih | ⟨d₃, d₄, hr, hs, hne, ih⟩
        · exact .inl (ih.tail hkeeps)
        · exact .inr ⟨d₃, d₄, hr, hs, hne, ih.tail hkeeps⟩
      · exact .inr ⟨d₁, d₂, hprev, ht, htext, .refl⟩

theorem text?_of_keepsText {uri : Url} {d d' : Desk}
    (h : Relation.ReflTransGen (KeepsText uri) d d') : d'.text? uri = d.text? uri := by
  induction h with
  | refl => rfl
  | tail _ hs ih => exact hs.text.trans ih

end LintDesk.Desk
