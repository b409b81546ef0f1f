import Remap.Proofs.Lists
import Remap.Proofs.Xml.Reading

/-!
# Cutting a document into pieces

Markup ends with the mark that closes it, and text ends before the next markup. So the pieces of a
text up to some markup do not depend on what stands behind them, and to read a text is to read the
pieces of its front and then the rest.
-/

namespace Remap.Xml

/-! ## Where pieces end -/

section Ends

variable {text body seen rest : List Char} {quote : Option Char} {accept : List Char → Bool}
  {token : Token}

theorem untilAngle_eq_some (h : untilAngle accept seen text = some (body, rest)) :
    ∃ piece, text = piece ++ '>' :: rest ∧ body = seen.reverse ++ piece ∧
      ∀ other, untilAngle accept seen (piece ++ '>' :: other) = some (body, other) := by
  induction text generalizing seen with
  | nil => nomatch h
  | cons c text ih =>
    rw [untilAngle] at h
    split at h
    · next hc =>
      cases h
      obtain ⟨rfl, haccept⟩ := hc
      refine ⟨[], rfl, (List.append_nil _).symm, fun other => ?_⟩
      rw [List.nil_append, untilAngle, if_pos ⟨rfl, haccept⟩]
    · next hc =>
      obtain ⟨piece, rfl, rfl, hother⟩ := ih h
      refine ⟨c :: piece, rfl, by simp, fun other => ?_⟩
      rw [List.cons_append, untilAngle, if_neg hc, hother]

theorem untilTagEnd_eq_some (h : untilTagEnd quote seen text = some (body, rest)) :
    ∃ piece, text = piece ++ '>' :: rest ∧ body = seen.reverse ++ piece ∧
      ∀ other, untilTagEnd quote seen (piece ++ '>' :: other) = some (body, other) := by
  induction text generalizing quote seen with
  | nil => cases quote <;> nomatch h
  | cons c text ih =>
    cases quote with
    | some quote =>
      rw [untilTagEnd] at h
      obtain ⟨piece, rfl, rfl, hother⟩ := ih h
      refine ⟨c :: piece, rfl, by simp, fun other => ?_⟩
      rw [List.cons_append, untilTagEnd, hother]
    | none =>
      rw [untilTagEnd] at h
      split at h
      · next hc =>
        cases h
        subst hc
        refine ⟨[], rfl, (List.append_nil _).symm, fun other => ?_⟩
        rw [List.nil_append, untilTagEnd, if_pos rfl]
      · next hc =>
        obtain ⟨piece, rfl, rfl, hother⟩ := ih h
        refine ⟨c :: piece, rfl, by simp, fun other => ?_⟩
        rw [List.cons_append, untilTagEnd, if_neg hc, hother]

/-- A piece starts as its text does. -/
theorem exists_cons_of_append {c : Char} (hc : c ≠ '>') (h : c :: text = body ++ '>' :: rest) :
    ∃ tail, body = c :: tail := by
  cases body with
  | nil => exact absurd (List.cons.inj h).1 hc
  | cons d body => exact ⟨body, by rw [(List.cons.inj h).1]⟩

theorem readBang_comment (h : readBang ('-' :: text) = .ok (token, rest)) :
    ∃ piece, '-' :: text = piece ++ '>' :: rest ∧
      ∀ other, readBang (piece ++ '>' :: other) = .ok (token, other) := by
  rw [readBang] at h
  split at h
  · next hend =>
    cases h
    obtain ⟨piece, htext, rfl, hother⟩ := untilAngle_eq_some hend
    refine ⟨_, htext, fun other => ?_⟩
    have hend := hother other
    rw [List.cons_append] at hend ⊢
    rw [readBang, hend]
    rfl
  · nomatch h

theorem readBang_cdata (h : readBang ('[' :: text) = .ok (token, rest)) :
    ∃ piece, '[' :: text = piece ++ '>' :: rest ∧
      ∀ other, readBang (piece ++ '>' :: other) = .ok (token, other) := by
  rw [readBang] at h
  split at h
  · next body rest hend =>
    split at h
    · next hopen =>
      cases h
      obtain ⟨piece, htext, hbody, hother⟩ := untilAngle_eq_some hend
      obtain rfl : body = piece := hbody
      obtain ⟨body, rfl⟩ := exists_cons_of_append (by decide) htext
      refine ⟨_, htext, fun other => ?_⟩
      have hend := hother other
      rw [List.cons_append] at hend ⊢
      rw [readBang, hend]
      exact if_pos hopen
    · nomatch h
  · nomatch h

theorem readBang_letter_eq {c : Char} (hc : c = 'D' ∨ c = 'd') (text : List Char) :
    readBang (c :: text) = match untilAngle isBalanced [] (c :: text) with
      | some (body, rest) =>
        if (body.take 7).map Char.toLower = "doctype".toList then
          if (body.drop 7).all isSpace then
            .error (.namelessDoctype, 2 + Text.byteLength body)
          else .ok (.aside, rest)
        else .error (.unclosedDoctype, 0)
      | none => .error (.unclosedDoctype, 0) := by
  rcases hc with rfl | rfl <;> rfl

theorem readBang_doctype {c : Char} (hc : c = 'D' ∨ c = 'd')
    (h : readBang (c :: text) = .ok (token, rest)) : ∃ piece, c :: text = piece ++ '>' :: rest ∧
      ∀ other, readBang (piece ++ '>' :: other) = .ok (token, other) := by
  rw [readBang_letter_eq hc] at h
  split at h
  · next body rest hend =>
    split at h
    · next hopen =>
      split at h
      · nomatch h
      · next hname =>
        cases h
        obtain ⟨piece, htext, hbody, hother⟩ := untilAngle_eq_some hend
        obtain rfl : body = piece := hbody
        obtain ⟨body, rfl⟩ := exists_cons_of_append (by rcases hc with rfl | rfl <;> decide) htext
        refine ⟨_, htext, fun other => ?_⟩
        have hend := hother other
        rw [List.cons_append] at hend ⊢
        rw [readBang_letter_eq hc, hend]
        exact (if_pos hopen).trans (if_neg hname)
    · nomatch h
  · nomatch h

/-- The piece behind `<!` is settled by the text up to its last mark. -/
theorem readBang_eq_ok (h : readBang text = .ok (token, rest)) :
    ∃ piece, text = piece ++ '>' :: rest ∧
      ∀ other, readBang (piece ++ '>' :: other) = .ok (token, other) := by
  cases text with
  | nil => nomatch h
  | cons c text =>
    by_cases hcomment : c = '-'
    · subst hcomment
      exact readBang_comment h
    by_cases hsection : c = '['
    · subst hsection
      exact readBang_cdata h
    by_cases hletter : c = 'D' ∨ c = 'd'
    · exact readBang_doctype hletter h
    · rw [readBang, if_neg hletter] at h
      · nomatch h
      · exact hcomment
      · exact hsection

/-- Whether text ends before a text. -/
def EndsText (rest : List Char) : Prop := ∀ c ∈ rest.head?, c = '<'

/-- Text runs up to the next markup or to the end. -/
theorem nextToken_text_of_ends {raw : List Char} (hraw : raw ≠ []) (h : '<' ∉ raw)
    (hrest : EndsText rest) : nextToken (raw ++ rest) = .ok (.text raw, rest) := by
  cases rest with
  | cons c rest =>
    obtain rfl : c = '<' := hrest c rfl
    exact nextToken_text hraw h
  | nil =>
    have hspan : raw.span (· != '<') = (raw, []) :=
      span_eq_self fun c hc => bne_iff_ne.mpr fun heq => h (heq ▸ hc)
    obtain ⟨first, raw, rfl⟩ := List.exists_cons_of_ne_nil hraw
    have hfirst : first ≠ '<' := fun heq => h (heq ▸ List.mem_cons_self)
    rw [List.append_nil]
    unfold nextToken
    split
    all_goals simp_all

theorem span_text {c : Char} (hc : c ≠ '<') (text : List Char) :
    (c :: text).takeWhile (· != '<') ≠ [] ∧ '<' ∉ (c :: text).takeWhile (· != '<') ∧
      EndsText ((c :: text).dropWhile (· != '<')) := by
  refine ⟨by simp [hc], fun hmem => ?_, fun d hd => ?_⟩
  · simpa using List.mem_takeWhile_imp hmem
  · have hstop := List.head?_dropWhile_not (· != '<') (c :: text)
    rw [Option.mem_def.mp hd] at hstop
    simpa using hstop

/-- The first piece of a text is settled by itself, unless it is text and something other than
markup stands behind it. -/
theorem nextToken_eq_ok (htext : text ≠ []) (h : nextToken text = .ok (token, rest)) :
    ∃ piece, piece ≠ [] ∧ text = piece ++ rest ∧
      ∀ other, ((∃ raw, token = .text raw) → EndsText rest → EndsText other) →
        nextToken (piece ++ other) = .ok (token, other) := by
  unfold nextToken at h
  split at h
  · obtain ⟨piece, rfl, hother⟩ := readBang_eq_ok h
    refine ⟨'<' :: '!' :: (piece ++ ['>']), List.cons_ne_nil _ _, by simp, fun other _ => ?_⟩
    simpa [nextToken] using hother other
  · split at h
    · next first second tail rest hend =>
      cases h
      obtain ⟨piece, hpiece, hbody, hother⟩ := untilAngle_eq_some hend
      obtain rfl : first :: second :: tail = piece := hbody
      obtain ⟨rfl, hpiece⟩ := List.cons.inj hpiece
      refine ⟨'<' :: '?' :: second :: (tail ++ ['>']), List.cons_ne_nil _ _, by simp [hpiece], fun other _ => ?_⟩
      have hend := hother other
      simp only [List.cons_append, List.append_assoc, List.nil_append] at hend ⊢
      rw [nextToken, hend]
    · cases h
  · split at h
    · next tail name rest hend =>
      cases h
      obtain ⟨piece, rfl, hname, hother⟩ := untilTagEnd_eq_some hend
      obtain rfl : name = piece := hname
      refine ⟨'<' :: '/' :: (name ++ ['>']), List.cons_ne_nil _ _, by simp, fun other _ => ?_⟩
      simp [nextToken, hother]
    · cases h
  · next tail hbang hquestion hslash =>
    split at h
    · next tag rest hend =>
      cases h
      obtain ⟨piece, rfl, htag, hother⟩ := untilTagEnd_eq_some hend
      obtain rfl : tag = piece := htag
      refine ⟨'<' :: (tag ++ ['>']), List.cons_ne_nil _ _, by simp, fun other _ => ?_⟩
      -- the first character of the tag tells it from other markup
      have hfirst (c : Char) (hc : ∀ tail, tag ++ '>' :: rest = c :: tail → False)
          (tail : List Char) :
          tag ++ '>' :: other = c :: tail → False := by
        cases tag with
        | nil => exact fun heq => hc rest (by rw [(List.cons.inj heq).1]; rfl)
        | cons d tag => exact fun heq => hc _ (by rw [List.cons_append, (List.cons.inj heq).1])
      rw [List.cons_append, List.append_assoc, List.singleton_append, nextToken, hother]
      · exact hfirst _ hbang
      · exact hfirst _ hquestion
      · exact hfirst _ hslash
    · cases h
  · next hmarkup =>
    obtain ⟨c, text, rfl⟩ := List.exists_cons_of_ne_nil htext
    have hc : c ≠ '<' := fun heq => hmarkup text (by rw [heq])
    obtain ⟨hnonempty, hraw, hrest⟩ := span_text hc text
    rw [List.span_eq_takeWhile_dropWhile] at h
    cases h
    exact ⟨_, hnonempty, List.takeWhile_append_dropWhile.symm,
      fun other hother => nextToken_text_of_ends hnonempty hraw (hother ⟨_, rfl⟩ hrest)⟩

end Ends

/-! ## The pieces of a front -/

/-- Whether a text is cut into pieces with another text left behind them. -/
inductive Cuts : List Char → List Token → List Char → Prop
  | nil {left : List Char} : Cuts left [] left
  | cons {text rest left : List Char} {token : Token} {tokens : List Token} (htext : text ≠ [])
      (htoken : nextToken text = .ok (token, rest)) (hrest : Cuts rest tokens left) :
      Cuts text (token :: tokens) left

section Fronts

variable {limit : Nat} {text left tail : List Char} {tokens more : List Token} {p q : Progress}

theorem Cuts.append {rest : List Char} (h : Cuts text tokens rest) (hmore : Cuts rest more left) :
    Cuts text (tokens ++ more) left := by
  induction h with
  | nil => exact hmore
  | cons htext htoken _ ih => exact .cons htext htoken (ih hmore)

/-- Pieces of markup do not depend on what stands behind them. -/
theorem Cuts.behind (h : Cuts text tokens left) (hmarkup : ∀ raw, Token.text raw ∉ tokens)
    (after : List Char) : Cuts (text ++ after) tokens (left ++ after) := by
  induction h with
  | nil => exact .nil
  | cons htext htoken _ ih =>
    obtain ⟨piece, hpiece, rfl, hother⟩ := nextToken_eq_ok htext htoken
    have hrest := ih fun raw hraw => hmarkup raw (List.mem_cons_of_mem _ hraw)
    rw [List.append_assoc]
    refine .cons (List.append_ne_nil_of_left_ne_nil hpiece _) (hother _ ?_) hrest
    rintro ⟨raw, rfl⟩
    exact absurd List.mem_cons_self (hmarkup raw)

/-- The pieces up to some markup do not depend on what stands behind them. -/
theorem Cuts.exists_front (h : Cuts text tokens ('<' :: tail)) :
    ∃ front, text = front ++ '<' :: tail ∧
      ∀ other, Cuts (front ++ '<' :: other) tokens ('<' :: other) := by
  generalize hleft : '<' :: tail = left at h
  induction h with
  | nil =>
    subst hleft
    exact ⟨[], rfl, fun _ => .nil⟩
  | cons htext htoken _ ih =>
    obtain ⟨front, rfl, hfront⟩ := ih hleft
    obtain ⟨piece, hpiece, rfl, hother⟩ := nextToken_eq_ok htext htoken
    refine ⟨piece ++ front, by rw [List.append_assoc], fun other => ?_⟩
    rw [List.append_assoc]
    refine .cons (List.append_ne_nil_of_left_ne_nil hpiece _) (hother _ fun _ hends => ?_)
      (hfront other)
    cases front with
    | nil => exact fun c hc => (Option.some.inj hc).symm
    | cons c front => exact hends

/-- Reads pieces one after the other. -/
def Progress.steps (limit : Nat) (p : Progress) (tokens : List Token) : Except Fault Progress :=
  tokens.foldlM (fun p token => p.step limit token) p

theorem Progress.steps_cons {token : Token} :
    p.steps limit (token :: tokens) = p.step limit token >>= fun q => q.steps limit tokens :=
  List.foldlM_cons

theorem Progress.steps_append :
    p.steps limit (tokens ++ more) = p.steps limit tokens >>= fun q => q.steps limit more :=
  List.foldlM_append

/-- To read a text is to read the pieces of its front and then the rest. -/
theorem Cuts.reads_iff (h : Cuts text tokens left) :
    Reads limit p text q ↔ ∃ r, p.steps limit tokens = .ok r ∧ Reads limit r left q := by
  induction h generalizing p with
  | nil => exact ⟨fun h => ⟨p, rfl, h⟩, fun ⟨r, hr, h⟩ => by cases hr; exact h⟩
  | cons htext htoken _ ih =>
    constructor
    · intro hreads
      cases hreads with
      | nil => exact absurd rfl htext
      | step htoken' _ hstep hrest =>
        rw [htoken] at htoken'
        cases htoken'
        obtain ⟨r, hsteps, hleft⟩ := ih.mp hrest
        exact ⟨r, by rw [Progress.steps_cons, hstep]; exact hsteps, hleft⟩
    · rintro ⟨r, hsteps, hleft⟩
      rw [Progress.steps_cons] at hsteps
      obtain ⟨next, hstep, hsteps⟩ := bind_eq_ok_iff.mp hsteps
      obtain ⟨piece, hpiece, rfl, -⟩ := nextToken_eq_ok htext htoken
      refine .step htoken ?_ hstep (ih.mpr ⟨r, hsteps, hleft⟩)
      rw [List.length_append]
      exact Nat.lt_add_of_pos_left (List.length_pos_iff.mpr hpiece)

/-- What the reader makes of a text is what its pieces make of the start. -/
theorem readFrom_eq_ok_iff {size fuel : Nat} (hfuel : text.length < fuel) :
    readFrom limit size fuel p text = .ok q ↔ Reads limit p text q := by
  refine ⟨fun h => ?_, fun h => h.readFrom size fuel hfuel⟩
  induction fuel generalizing p text with
  | zero => cases hfuel
  | succ fuel ih =>
    cases text with
    | nil =>
      cases h
      exact .nil
    | cons c text =>
      simp only [readFrom] at h
      split at h
      · cases h
      · next token rest htoken =>
        split at h
        · cases h
        · next next hstep =>
          obtain ⟨piece, hpiece, htext, -⟩ := nextToken_eq_ok (List.cons_ne_nil _ _) htoken
          have hless : rest.length < (c :: text).length := by
            rw [htext, List.length_append]
            exact Nat.lt_add_of_pos_left (List.length_pos_iff.mpr hpiece)
          exact .step htoken hless hstep (ih (by omega) h)

/-- A document is read if its text takes the reader to the end of an element. -/
theorem read_eq_ok_iff {text : String} {v : Value} :
    read limit text = .ok v ↔ ∃ name w, v = .object [(name, w)] ∧
      Reads limit ⟨[], none⟩ (skipMark text.toList) ⟨[], some (name, w)⟩ := by
  rw [read]
  refine bind_eq_ok_iff.trans ⟨?_, ?_⟩
  · rintro ⟨⟨stack, document⟩, hread, hfinish⟩
    rw [readFrom_eq_ok_iff (Nat.lt_succ_self _)] at hread
    cases stack with
    | cons frame outer => cases hfinish
    | nil =>
      cases document with
      | none => cases hfinish
      | some element =>
        cases hfinish
        exact ⟨_, _, rfl, hread⟩
  · rintro ⟨name, w, rfl, hread⟩
    exact ⟨_, (readFrom_eq_ok_iff (Nat.lt_succ_self _)).mpr hread, rfl⟩

end Fronts

end Remap.Xml
