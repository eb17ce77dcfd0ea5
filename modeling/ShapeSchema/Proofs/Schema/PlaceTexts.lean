import Mathlib.Data.List.Basic
import ShapeSchema.Schema.Conversion
import ShapeSchema.Schema.Encoding

/-!
# Places and their texts

Errors of conversion and of encoding are told by messages in which the place stands as a text. The
steps are not escaped in there; but as long as no step has a double quote in it, the end of each can
be found, and the place can be told from its text, also where the message goes on behind it.
-/

namespace ShapeSchema

namespace Place

/-- No step has a double quote in it. -/
def QuoteFree (place : Place) : Prop := ∀ step ∈ place, '"' ∉ step.toList

instance (place : Place) : Decidable place.QuoteFree :=
  inferInstanceAs (Decidable (∀ step ∈ place, '"' ∉ step.toList))

/-! ## The characters of a text -/

theorem toList_steps_cons (step : String) (rest : Place) :
    (steps (step :: rest)).toList =
      '[' :: '"' :: (step.toList ++ '"' :: ']' :: (steps rest).toList) := by
  simp [steps]

theorem text_nil : text [] = "root" := rfl

theorem text_cons (step : String) (rest : Place) : text (step :: rest) = steps (step :: rest) := rfl

/-- One step more stands in front of the text of the others, or alone. -/
theorem text_step (step : String) (place : Place) :
    text (step :: place) = text [step] ++ if place = [] then "" else place.text := by
  cases place with
  | nil => simp
  | cons next rest => simp [text_cons, steps]

/-! ## Telling places apart -/

/-- What stands before the first quote, and what stands behind it, are determined by the whole. -/
theorem first_quote_inj {before before' after after' : List Char} (h : '"' ∉ before)
    (h' : '"' ∉ before') (heq : before ++ '"' :: after = before' ++ '"' :: after') :
    before = before' ∧ after = after' := by
  have hlength : before.length = before'.length := by
    have hindex := congrArg (List.idxOf '"') heq
    simpa [List.idxOf_append_of_notMem h, List.idxOf_append_of_notMem h'] using hindex
  obtain ⟨hbefore, hafter⟩ := List.append_inj heq hlength
  exact ⟨hbefore, (List.cons.inj hafter).2⟩

/-- Where the steps end is known if what follows does not begin like a step. -/
theorem steps_append_inj {p q : Place} (hp : p.QuoteFree) (hq : q.QuoteFree) {r r' : List Char}
    (hr : r.head? ≠ some '[') (hr' : r'.head? ≠ some '[')
    (h : (steps p).toList ++ r = (steps q).toList ++ r') : p = q ∧ r = r' := by
  induction p generalizing q with
  | nil =>
    cases q with
    | nil => exact ⟨rfl, by simpa [steps] using h⟩
    | cons step rest =>
      rw [toList_steps_cons] at h
      obtain rfl : r = _ := by simpa [steps] using h
      exact absurd rfl hr
  | cons step rest ih =>
    cases q with
    | nil =>
      rw [toList_steps_cons] at h
      obtain rfl : _ = r' := by simpa [steps] using h
      exact absurd rfl hr'
    | cons step' rest' =>
      obtain ⟨hstep, hrest⟩ := List.forall_mem_cons.mp hp
      obtain ⟨hstep', hrest'⟩ := List.forall_mem_cons.mp hq
      simp only [toList_steps_cons, List.cons_append, List.append_assoc, List.cons.injEq,
        true_and] at h
      -- The quote behind the step is its first one, so both first steps end there.
      obtain ⟨hfirst, h⟩ := first_quote_inj hstep hstep' h
      obtain ⟨-, h⟩ := List.cons.inj h
      obtain ⟨rfl, rfl⟩ := ih hrest hrest' h
      exact ⟨by rw [String.toList_injective hfirst], rfl⟩

/-- Texts of places that go on in some way which is not that of a step. -/
theorem text_append_inj {p q : Place} (hp : p.QuoteFree) (hq : q.QuoteFree) {r r' : String}
    (hr : r.toList.head? ≠ some '[') (hr' : r'.toList.head? ≠ some '[') :
    p.text ++ r = q.text ++ r' ↔ p = q ∧ r = r' := by
  refine ⟨fun h => ?_, fun ⟨hplace, hrest⟩ => by rw [hplace, hrest]⟩
  have hchars : p.text.toList ++ r.toList = q.text.toList ++ r'.toList := by
    rw [← String.toList_append, h, String.toList_append]
  cases p with
  | nil =>
    cases q with
    | nil => exact ⟨rfl, String.toList_injective (List.append_cancel_left hchars)⟩
    | cons step rest =>
      -- The root has a name of its own, which begins with another character than a step.
      rw [text_nil, text_cons, toList_steps_cons] at hchars
      simp at hchars
  | cons step rest =>
    cases q with
    | nil =>
      rw [text_nil, text_cons, toList_steps_cons] at hchars
      simp at hchars
    | cons step' rest' =>
      obtain ⟨hplace, hrest⟩ := steps_append_inj hp hq hr hr' hchars
      exact ⟨hplace, String.toList_injective hrest⟩

theorem text_inj {p q : Place} (hp : p.QuoteFree) (hq : q.QuoteFree) : p.text = q.text ↔ p = q := by
  have hend : "".toList.head? ≠ some '[' := by simp
  simpa using text_append_inj hp hq hend hend

/-- With quotes in their steps, two places may have the same text. -/
example : text ["a\"][\"b"] = text ["a", "b"] := by decide

end Place

/-! ## Messages -/

/-- Behind the place, messages go on with the reason. -/
theorem head?_reason (reason : String) : (". Reason: " ++ reason).toList.head? ≠ some '[' := by
  have hdot : ". Reason: ".toList = '.' :: " Reason: ".toList := by decide
  rw [String.toList_append, hdot]
  simp

/-- Messages that begin alike, with a place and a reason. -/
theorem message_inj {p q : Place} (hp : p.QuoteFree) (hq : q.QuoteFree) {opening r r' : String} :
    opening ++ p.text ++ ". Reason: " ++ r = opening ++ q.text ++ ". Reason: " ++ r' ↔
      p = q ∧ r = r' := by
  simp only [String.append_assoc, String.append_right_inj]
  rw [Place.text_append_inj hp hq (head?_reason r) (head?_reason r'), String.append_right_inj]

theorem ConversionError.message_eq_iff {e e' : ConversionError} (h : e.place.QuoteFree)
    (h' : e'.place.QuoteFree) :
    e.message = e'.message ↔ e.place = e'.place ∧ e.obstacle.text = e'.obstacle.text := by
  unfold message
  rw [String.append_left_inj]
  exact message_inj h h'

theorem EncodeError.message_eq_iff {e e' : EncodeError} (h : e.place.QuoteFree)
    (h' : e'.place.QuoteFree) :
    e.message = e'.message ↔ e.place = e'.place ∧ e.reason.text = e'.reason.text :=
  message_inj h h'

/-- **Texts of places.** Places without quotes in their steps have the same text only if they are the
same. Seen from one step further out, the place of an error has the text of that step in front of its
old text, or instead of it where that was the root's. So from the messages of two errors, of the same
sort and without quotes in their places, one can see whether they arose at the same place and for a
reason that is told alike. -/
theorem place_texts :
    (∀ p q : Place, p.QuoteFree → q.QuoteFree → (p.text = q.text ↔ p = q)) ∧
    (∀ (step : String) (e : ConversionError), (e.under step).place.text =
      Place.text [step] ++ if e.place = [] then "" else e.place.text) ∧
    (∀ (step : String) (e : EncodeError), (e.under step).place.text =
      Place.text [step] ++ if e.place = [] then "" else e.place.text) ∧
    (∀ e e' : ConversionError, e.place.QuoteFree → e'.place.QuoteFree →
      (e.message = e'.message ↔ e.place = e'.place ∧ e.obstacle.text = e'.obstacle.text)) ∧
    ∀ e e' : EncodeError, e.place.QuoteFree → e'.place.QuoteFree →
      (e.message = e'.message ↔ e.place = e'.place ∧ e.reason.text = e'.reason.text) :=
  ⟨fun _ _ hp hq => Place.text_inj hp hq, fun step e => Place.text_step step e.place,
    fun step e => Place.text_step step e.place, fun _ _ h h' => ConversionError.message_eq_iff h h',
    fun _ _ h h' => EncodeError.message_eq_iff h h'⟩

/-- Steps may hold brackets and dots, be empty or be called like the root. -/
theorem place_texts_brackets :
    Place.QuoteFree ["a][b", ""] ∧ Place.QuoteFree ["a", "b", ""] ∧ Place.QuoteFree ["root"] ∧
    Place.text ["a][b", ""] ≠ Place.text ["a", "b", ""] ∧ Place.text ["root"] ≠ Place.text [] ∧
    ((ConversionError.here .optionalRoot).under "1").place.text = "[\"1\"]" ∧
    ((EncodeError.mk ["1"] .dateUnsupported).under "xs").place.text = "[\"xs\"][\"1\"]" ∧
    (ConversionError.mk ["a.b"] .nestedOption).message ≠
      (ConversionError.mk ["a", "b"] .nestedOption).message ∧
    (EncodeError.mk ["0"] .dateUnsupported).message ≠
      (EncodeError.mk ["0"] (.wrongLength 2 1)).message := by
  obtain ⟨hinj, hconversion, hencode, hmessage, hmessage'⟩ := place_texts
  have hjoined : Place.QuoteFree ["a][b", ""] := by decide
  have hapart : Place.QuoteFree ["a", "b", ""] := by decide
  have hroot : Place.QuoteFree ["root"] := by decide
  refine ⟨hjoined, hapart, hroot, ?_, ?_, ?_, ?_, ?_, ?_⟩
  · exact fun h => absurd ((hinj _ _ hjoined hapart).mp h) (by decide)
  · exact fun h => absurd ((hinj _ _ hroot (by decide)).mp h) (by decide)
  · exact (hconversion _ _).trans (by decide)
  · exact (hencode _ _).trans (by decide)
  · exact fun h => absurd ((hmessage _ _ (by decide) (by decide)).mp h).1 (by decide)
  · exact fun h => absurd ((hmessage' _ _ (by decide) (by decide)).mp h).2 (by decide)

end ShapeSchema
