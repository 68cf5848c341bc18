import SeriesStore.Proofs.Replication.VectorMerge

/-!
# The text of a change vector is canonical, given one node tag per database

The vectors a node works with are read from text, grown by `observe` and combined by `merge`.
When every database id is written with the tag of the node that owns it (`OwnedBy owner`), each
of these steps keeps the entries sorted by node tag and then database id, one per database
(`Canonical`), and keeps them well formed, so a vector reads back from its own text and the
text of a vector read from any accepted text is a fixed point of reading and writing
(`canonical_text`).

The ownership condition is needed. `observe` lets a newer entry take the place of the listed
one of its database, node tag included, and sorts only when a new database arrives; an entry
that brings a new tag to a listed database therefore lands out of order. Reading
`A:1-db1, B:1-db2, C:5-db1` lists `C:5-db1` before `B:1-db2`, and that text reads back in the
other order (`canonical_text_needs_owner`).
-/

namespace SeriesStore

namespace ChangeVector

variable {owner : String → String}

/-- The vectors made from texts whose databases carry their owners' tags: read from such a text,
observed with an entry that reading could give and that carries its owner's tag, or merged. -/
inductive Produced (owner : String → String) : ChangeVector → Prop
  | parse {s : String} {v : ChangeVector} : OwnedBy owner s → parse s = .ok v → Produced owner v
  | observe {v : ChangeVector} {e : CvEntry} : Produced owner v → e.WellFormed →
      e.node = owner e.db → Produced owner (v.observe e)
  | merge {v w : ChangeVector} : Produced owner v → Produced owner w →
      Produced owner (v.merge w)

/-- Every produced vector is canonical and of well-formed entries: reading gives such a vector,
and observing and merging keep both. -/
theorem Produced.canonical {v : ChangeVector} (h : Produced owner v) :
    Canonical owner v ∧ ∀ e ∈ v.entries, e.WellFormed := by
  induction h with
  | parse hs hp =>
    obtain ⟨v', hp', hcan, hwf⟩ := hs.canonical_parse
    rw [hp] at hp'
    cases hp'
    exact ⟨hcan, hwf⟩
  | @observe v e _ hwf hown ih =>
    refine ⟨ih.1.observe hown, fun x hx => ?_⟩
    rcases mem_observe hx with hx | rfl
    · exact ih.2 x hx
    · exact hwf
  | merge _ _ ihv ihw => exact ⟨ihv.1.merge ihw.1, wellFormed_merge ihv.2 ihw.2⟩

/-- The text of a vector read from an owned text is read back as itself. -/
theorem OwnedBy.parse_render_parse {s : String} {v : ChangeVector} (hs : OwnedBy owner s)
    (hp : parse s = .ok v) : parse v.render = .ok v := by
  have h := (Produced.parse hs hp).canonical
  exact parse_render h.1.sorted h.1.distinct h.2

/-- Change-vector text is canonical when every database id carries its owner's node tag. Every
vector read, observed or merged from such texts keeps its entries sorted by node tag then
database id, with distinct database ids, and reads back from its own text; and the text
written for any such accepted text is a fixed point of reading and writing. -/
theorem canonical_text (owner : String → String) :
    (∀ v, Produced owner v →
      v.entries.Pairwise (fun a b => entryLe a b = true) ∧ DistinctDbs v.entries ∧
        parse v.render = .ok v) ∧
    ∀ s, OwnedBy owner s →
      ∃ t, render <$> parse s = .ok t ∧ render <$> parse t = .ok t := by
  refine ⟨fun v hv => ?_, fun s hs => ?_⟩
  · obtain ⟨hcan, hwf⟩ := hv.canonical
    exact ⟨hcan.sorted, hcan.distinct, parse_render hcan.sorted hcan.distinct hwf⟩
  · obtain ⟨v, hp, -, -⟩ := hs.canonical_parse
    refine ⟨v.render, by rw [hp]; rfl, ?_⟩
    rw [hs.parse_render_parse hp]
    rfl

/-- A text of three databases owned by `A`, `B` and `C`: its text is a fixed point, and the
vector read from it, observed with a newer entry of `db2` and merged with itself, is canonical
and reads back from its text. -/
theorem canonical_text_owned :
    let owner := fun d => if d = "db1" then "A" else if d = "db2" then "B" else "C"
    let s := "C:1-db3, A:5-db1, B:1-db2"
    OwnedBy owner s ∧ (∃ t, render <$> parse s = .ok t ∧ render <$> parse t = .ok t) ∧
      ∃ v, parse s = .ok v ∧ Produced owner ((v.observe ⟨"B", 4, "db2"⟩).merge v) ∧
        ((v.observe ⟨"B", 4, "db2"⟩).merge v).entries.Pairwise (fun a b => entryLe a b = true) ∧
        DistinctDbs ((v.observe ⟨"B", 4, "db2"⟩).merge v).entries ∧
        parse ((v.observe ⟨"B", 4, "db2"⟩).merge v).render =
          .ok ((v.observe ⟨"B", 4, "db2"⟩).merge v) := by
  intro owner s
  have hs : OwnedBy owner s :=
    ⟨[⟨"C", 1, "db3"⟩, ⟨"A", 5, "db1"⟩, ⟨"B", 1, "db2"⟩], by decide +kernel, by decide⟩
  obtain ⟨v, hp, -, -⟩ := hs.canonical_parse
  have he : CvEntry.WellFormed ⟨"B", 4, "db2"⟩ :=
    CvEntry.wellFormed_of_parse (p := "B:4-db2") (by decide) (by decide +kernel)
  have hprod : Produced owner ((v.observe ⟨"B", 4, "db2"⟩).merge v) :=
    .merge (.observe (.parse hs hp) he rfl) (.parse hs hp)
  exact ⟨hs, (canonical_text owner).2 s hs, v, hp, hprod, (canonical_text owner).1 _ hprod⟩

/-- Without owners the text is not canonical: `C:5-db1` takes the place of `A:1-db1` ahead of
`B:1-db2`, and the text written reads back in the other order. -/
theorem canonical_text_needs_owner :
    render <$> parse "A:1-db1, B:1-db2, C:5-db1" = .ok "C:5-db1, B:1-db2" ∧
      render <$> parse "C:5-db1, B:1-db2" = .ok "B:1-db2, C:5-db1" := by
  -- sorting is by well-founded recursion, which the kernel does not evaluate: take the entries
  -- written, then observe them through the equations of the merge
  have h₁ : written "A:1-db1, B:1-db2, C:5-db1" =
      .ok [⟨"A", 1, "db1"⟩, ⟨"B", 1, "db2"⟩, ⟨"C", 5, "db1"⟩] := by decide +kernel
  have h₂ : written "C:5-db1, B:1-db2" = .ok [⟨"C", 5, "db1"⟩, ⟨"B", 1, "db2"⟩] := by
    decide +kernel
  rw [parse_eq_written, parse_eq_written, h₁, h₂]
  simp [observe, List.mergeSort, List.cons_merge_cons]
  decide +kernel

end ChangeVector

end SeriesStore
