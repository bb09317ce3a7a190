/-
Where a scan is refused. A text that cannot be scanned falls apart at one place: what stands before it can be
scanned, and its pieces are also the longest where they stand in the whole text; at the front of what stands behind
it nothing can be read, which is said by `Unreadable` for each of the three reasons. There is no other such place,
because of two ways to cut off pieces at the front of a text one goes on where the other stops. Main statement:
`scan_eq_error_iff_stopsAt`.
-/
import PL0.Proofs.Scan.Append

namespace PL0

open Lexeme

/-- At the front of a text that stands after another nothing can be read, for the reason that the fault gives. -/
inductive Unreadable (before rest : List Char) : Fault → Prop where
  /-- Nothing that has a form stands there, and no comment is opened. -/
  | unrecognized (nonempty : rest ≠ []) (not_brace : rest.head? ≠ some '{')
    (no_form : ∀ (form : Form) (text : List Char), form.Fits text → ¬text <+: rest) :
    Unreadable before rest (.unrecognized (1 + before.count '\n') (String.ofList before).utf8ByteSize
      (String.ofList (rest.take 16)))
  /-- A comment is opened there, and it is never closed. -/
  | unterminatedComment (brace : rest.head? = some '{') (not_closed : '}' ∉ rest) :
    Unreadable before rest (.unterminatedComment (1 + before.count '\n'))
  /-- The digits that stand there are those of a number that is too large. -/
  | numberTooLarge (too_large : 9223372036854775807 < Text.decimalValue (rest.takeWhile Char.isDigit)) :
    Unreadable before rest
      (.numberTooLarge (String.ofList (rest.takeWhile Char.isDigit)) (1 + before.count '\n'))

/-- A text falls apart into one that can be scanned, with pieces that are also the longest where they stand in the
whole text, and one at the front of which nothing can be read. -/
structure StopsAt (source before rest : String) (fault : Fault) : Prop where
  split : source = before ++ rest
  scanned : ∃ ts, scan before = .ok ts
  pieces : ∃ lxs, Pieces before.toList lxs [] ∧ Pieces source.toList lxs rest.toList
  unreadable : Unreadable before.toList rest.toList fault

/-! ## Numbers -/

/-- Zeros before the digits of a number do not change its value. -/
theorem decimalValue_replicate_zero (k : Nat) (digits : List Char) :
    Text.decimalValue (List.replicate k '0' ++ digits) = Text.decimalValue digits := by
  induction k with
  | zero => rfl
  | succ k ih =>
    rw [List.replicate_succ, List.cons_append, ← ih]
    rfl

namespace Lexeme

variable {lx : Lexeme} {cs front rest : List Char} {line : Nat} {fault : Fault}

/-- Only numbers have no token, if they are too large. -/
theorem token?_eq_error_iff : lx.token? line = .error fault ↔ lx.form = .number ∧
    maxLiteral < Text.decimalValue lx.text ∧ fault = .numberTooLarge (String.ofList lx.text) line := by
  obtain ⟨form, text⟩ := lx
  cases form with
  | number =>
    simp only [token?, true_and, ← Nat.not_le]
    split <;> simp [*, eq_comm]
  | _ => simp [token?]

/-! ## The front of a text -/

/-- No lexeme is read where nothing that has a form stands at the front. -/
theorem first?_eq_none_iff :
    first? cs = none ↔ ∀ (form : Form) (text : List Char), form.Fits text → ¬text <+: cs := by
  constructor
  · rintro h form text hf ⟨rest, rfl⟩
    obtain ⟨lx, rest', hr, -⟩ := exists_first?_of_fits rest ⟨form, text⟩ hf
    rw [h] at hr
    cases hr
  · intro h
    rw [Option.eq_none_iff_forall_ne_some]
    rintro ⟨lx, rest⟩ hr
    exact h lx.form lx.text (first?_fits hr) ⟨rest, first?_append hr⟩

theorem comment?_eq_none_iff : comment? cs = none ↔ '}' ∉ cs := by
  have hclosed : '}' ∉ cs ↔ cs.dropWhile (· ≠ '}') = [] := by
    rw [List.dropWhile_eq_nil_iff, ← List.forall_mem_ne']
    simp
  rw [comment?, hclosed]
  cases cs.dropWhile (· ≠ '}') <;> simp

theorem first?_brace (cs : List Char) : first? ('{' :: cs) = comment? cs := by
  rw [first?, if_neg (by decide), if_pos rfl]

/-- The longest lexeme is also the longest where less of the text stands after it. -/
theorem Longest.of_append (h : lx.Longest (lx.text ++ (front ++ rest))) : lx.Longest (lx.text ++ front) where
  fits := h.fits
  front := List.prefix_append _ _
  length_le := by
    intro form text hf ht
    refine h.length_le form text hf (ht.trans ?_)
    rw [← List.append_assoc]
    exact List.prefix_append _ _

end Lexeme

open Lexeme

theorem start_after (before : List Char) :
    Place.start.after before = ⟨1 + before.count '\n', (String.ofList before).utf8ByteSize⟩ := by
  rw [← bytes_toList, String.toList_ofList]
  simp [Place.after, Place.start]

variable {before cs rest : List Char} {fault : Fault}

/-- Nothing can be read at the front of a text where it begins with no lexeme, or with one that has no token. -/
theorem unreadable_iff : Unreadable before rest fault ↔
    (rest ≠ [] ∧ first? rest = none ∧ fault = unreadableAt (.after .start before) rest) ∨
      ∃ lx text, first? rest = some (lx, text) ∧ lx.token? (Place.start.after before).line = .error fault := by
  constructor
  · rintro (⟨hne, hbrace, hform⟩ | ⟨hbrace, hopen⟩ | hlarge)
    · refine .inl ⟨hne, first?_eq_none_iff.2 hform, ?_⟩
      rw [unreadableAt, if_neg hbrace, start_after]
      rfl
    · obtain ⟨body, rfl⟩ := List.head?_eq_some_iff.1 hbrace
      refine .inl ⟨List.cons_ne_nil _ _, ?_, ?_⟩
      · rw [first?_brace, comment?_eq_none_iff]
        exact fun hm => hopen (List.mem_cons_of_mem _ hm)
      · rw [unreadableAt, if_pos hbrace, start_after]
    · -- the digits at the front are a lexeme, and it has no token
      have hne : rest.takeWhile Char.isDigit ≠ [] := by
        intro hnil
        rw [hnil] at hlarge
        exact absurd hlarge (by decide)
      have hfits : Form.number.Fits (rest.takeWhile Char.isDigit) := ⟨hne, fun c hc => of_mem_takeWhile hc⟩
      have hfirst : first? (rest.takeWhile Char.isDigit ++ rest.dropWhile Char.isDigit) =
          some (⟨.number, rest.takeWhile Char.isDigit⟩, rest.dropWhile Char.isDigit) :=
        @first?_of_fits ⟨.number, _⟩ _ hfits fun c hc => of_mem_head?_dropWhile hc
      rw [List.takeWhile_append_dropWhile] at hfirst
      refine .inr ⟨_, _, hfirst, token?_eq_error_iff.2 ⟨rfl, hlarge, ?_⟩⟩
      rw [start_after]
  · rintro (⟨hne, hnone, rfl⟩ | ⟨⟨form, digits⟩, text, hfirst, htoken⟩)
    · by_cases hbrace : rest.head? = some '{'
      · obtain ⟨body, rfl⟩ := List.head?_eq_some_iff.1 hbrace
        rw [first?_brace, comment?_eq_none_iff] at hnone
        rw [unreadableAt, if_pos hbrace, start_after]
        exact .unterminatedComment hbrace (by simpa using hnone)
      · rw [unreadableAt, if_neg hbrace, start_after]
        exact .unrecognized hne hbrace (first?_eq_none_iff.1 hnone)
    · obtain ⟨hform, hlarge, rfl⟩ := token?_eq_error_iff.1 htoken
      obtain rfl : form = .number := hform
      obtain ⟨rfl, hlong⟩ := first?_eq_some_iff.1 hfirst
      have hdigits : (digits ++ text).takeWhile Char.isDigit = digits :=
        takeWhile_append_of_front hlong.fits.2 hlong.goesOn_eq_false
      have h : Unreadable before (digits ++ text) _ := .numberTooLarge (by rwa [hdigits])
      rwa [hdigits] at h

/-! ## From a lexeme to the next -/

/-- A scan of a text that begins with a lexeme is refused for this lexeme, or behind it. -/
theorem scanFrom_eq_error_iff {p : Place} {lx : Lexeme} (hf : first? cs = some (lx, rest)) :
    scanFrom p cs = .error fault ↔ lx.token? p.line = .error fault ∨
      ∃ token, lx.token? p.line = .ok token ∧ scanFrom (p.after lx.text) rest = .error fault := by
  rw [scanFrom_of_first? hf]
  cases lx.token? p.line with
  | error fault' =>
    constructor
    · intro h
      cases h
      exact .inl rfl
    · rintro (h | ⟨_, h, -⟩)
      · cases h
        rfl
      · cases h
  | ok token =>
    cases scanFrom (p.after lx.text) rest with
    | error fault' =>
      constructor
      · intro h
        cases h
        exact .inr ⟨token, rfl, rfl⟩
      · rintro (h | ⟨_, -, h⟩)
        · cases h
        · cases h
          rfl
    | ok ts => exact ⟨nofun, by rintro (h | ⟨_, -, h⟩) <;> cases h⟩

/-- Two texts that stand after another: the first can be scanned, with pieces that are also the longest if the
second stands after them, and at the front of the second nothing can be read. -/
structure StopsBehind (before front rest : List Char) (fault : Fault) : Prop where
  scanned : ∃ ts, scanFrom (.after .start before) front = .ok ts
  pieces : ∃ lxs, Pieces front lxs [] ∧ Pieces (front ++ rest) lxs rest
  unreadable : Unreadable (before ++ front) rest fault

namespace StopsBehind

theorem here (h : Unreadable before rest fault) : StopsBehind before [] rest fault where
  scanned := ⟨_, scanFrom_nil _⟩
  pieces := ⟨[], .nil [], .nil rest⟩
  unreadable := by rwa [List.append_nil]

/-- A scan goes on behind a lexeme. -/
theorem cons {lx : Lexeme} {front : List Char} {token : Option Token}
    (hlong : lx.Longest (lx.text ++ (front ++ rest)))
    (ht : lx.token? (Place.start.after before).line = .ok token)
    (h : StopsBehind (before ++ lx.text) front rest fault) :
    StopsBehind before (lx.text ++ front) rest fault where
  scanned := by
    obtain ⟨ts, hs⟩ := h.scanned
    rw [Place.after_append] at hs
    exact ⟨_, (scanFrom_eq_ok_iff (first?_eq_some_iff.2 ⟨rfl, hlong.of_append⟩)).2 ⟨token, ts, ht, hs, rfl⟩⟩
  pieces := by
    obtain ⟨lxs, hfront, hwhole⟩ := h.pieces
    rw [List.append_assoc]
    exact ⟨lx :: lxs, .cons hlong.of_append hfront, .cons hlong hwhole⟩
  unreadable := by
    rw [← List.append_assoc]
    exact h.unreadable

/-- A scan that is refused comes to a place where nothing can be read. By induction on the scan, from one lexeme
to the next. -/
theorem of_scanFrom {p : Place} (h : scanFrom p cs = .error fault) (hp : p = .after .start before) :
    ∃ front rest, cs = front ++ rest ∧ StopsBehind before front rest fault := by
  induction p, cs using scanFrom.induct generalizing before with
  | case1 p =>
    rw [scanFrom_nil] at h
    cases h
  | case2 p cs hne hf =>
    rw [scanFrom_of_first?_eq_none hne hf] at h
    cases h
    exact ⟨[], cs, rfl, here (unreadable_iff.2 (.inl ⟨hne, hf, by rw [hp]⟩))⟩
  | case3 p cs hne lx text hf _ ih =>
    rcases (scanFrom_eq_error_iff hf).1 h with ht | ⟨token, ht, hs⟩
    · exact ⟨[], cs, rfl, here (unreadable_iff.2 (.inr ⟨lx, text, hf, hp ▸ ht⟩))⟩
    · have hp' : p.after lx.text = .after .start (before ++ lx.text) := by rw [hp, Place.after_append]
      obtain ⟨front, rest, rfl, hstops⟩ := ih hs hp'
      obtain ⟨rfl, hlong⟩ := first?_eq_some_iff.1 hf
      exact ⟨lx.text ++ front, rest, (List.append_assoc ..).symm, cons hlong (hp ▸ ht) hstops⟩

/-- A scan is refused where nothing can be read behind pieces that are scanned. By induction on the pieces. -/
theorem scanFrom_eq_error {front : List Char} (h : StopsBehind before front rest fault) :
    scanFrom (.after .start before) (front ++ rest) = .error fault := by
  obtain ⟨⟨ts, hs⟩, ⟨lxs, hfront, hwhole⟩, hu⟩ := h
  induction lxs generalizing before front ts with
  | nil =>
    cases hfront
    rw [List.append_nil] at hu
    rw [List.nil_append]
    rcases unreadable_iff.1 hu with ⟨hne, hf, rfl⟩ | ⟨lx, text, hf, ht⟩
    · exact scanFrom_of_first?_eq_none hne hf
    · exact (scanFrom_eq_error_iff hf).2 (.inl ht)
  | cons lx lxs ih =>
    cases hfront with
    | @cons _ _ front _ hlong hfront =>
      rw [List.append_assoc] at hwhole ⊢
      generalize hcs : lx.text ++ (front ++ rest) = cs at hwhole ⊢
      cases hwhole with
      | @cons _ _ text _ hlong' hwhole =>
        obtain rfl := List.append_cancel_left hcs
        obtain ⟨token, ts', ht, hs', -⟩ := (scanFrom_eq_ok_iff (first?_eq_some_iff.2 ⟨rfl, hlong⟩)).1 hs
        rw [← Place.after_append] at hs'
        rw [← List.append_assoc] at hu
        have hrest := ih hu ts' hs' hfront hwhole
        rw [Place.after_append] at hrest
        exact (scanFrom_eq_error_iff (first?_eq_some_iff.2 ⟨rfl, hlong'⟩)).2 (.inr ⟨token, ht, hrest⟩)

end StopsBehind

/-! ## One place only -/

/-- Of two ways to cut off pieces at the front of a text one goes on where the other stops. -/
theorem Lexeme.Pieces.comparable {lxs lxs' : List Lexeme} {rest' : List Char} (h : Pieces cs lxs rest)
    (h' : Pieces cs lxs' rest') :
    (∃ more, lxs' = lxs ++ more ∧ Pieces rest more rest') ∨ ∃ more, lxs = lxs' ++ more ∧ Pieces rest' more rest := by
  induction h generalizing lxs' with
  | nil rest => exact .inl ⟨lxs', rfl, h'⟩
  | @cons lx others text rest hlong hpieces ih =>
    generalize hcs : lx.text ++ text = cs at h'
    cases h' with
    | nil => exact .inr ⟨lx :: others, rfl, hcs ▸ .cons hlong hpieces⟩
    | @cons lx' others' text' _ hlong' hpieces' =>
      have hf := first?_eq_some_iff.2 ⟨rfl, hlong⟩
      rw [hcs, first?_eq_some_iff.2 ⟨rfl, hlong'⟩] at hf
      cases hf
      rcases ih hpieces' with ⟨more, rfl, hm⟩ | ⟨more, rfl, hm⟩
      · exact .inl ⟨more, rfl, hm⟩
      · exact .inr ⟨more, rfl, hm⟩

/-- Every piece of a text that is scanned has a token, or is layout. -/
theorem exists_token?_of_mem {p : Place} {lxs : List Lexeme} {ts : List Token} (h : Pieces cs lxs [])
    (hs : scanFrom p cs = .ok ts) : ∀ lx ∈ lxs, ∃ line token, lx.token? line = .ok token := by
  induction lxs generalizing p cs ts with
  | nil => exact List.forall_mem_nil _
  | cons lx lxs ih =>
    cases h with
    | cons hlong h =>
      obtain ⟨token, ts', ht, hs', -⟩ := (scanFrom_eq_ok_iff (first?_eq_some_iff.2 ⟨rfl, hlong⟩)).1 hs
      exact List.forall_mem_cons.2 ⟨⟨_, token, ht⟩, ih h hs'⟩

/-- Where nothing can be read, no pieces are cut off that are not too large. -/
theorem Unreadable.rest_eq {lxs : List Lexeme} {rest' : List Char} (hu : Unreadable before rest fault)
    (h : Pieces rest lxs rest') (hlxs : ∀ lx ∈ lxs, ∃ line token, lx.token? line = .ok token) : rest = rest' := by
  cases h with
  | nil => rfl
  | @cons lx others text _ hlong hpieces =>
    obtain ⟨line, token, ht⟩ := hlxs lx List.mem_cons_self
    have hfirst := first?_eq_some_iff.2 ⟨rfl, hlong⟩
    rcases unreadable_iff.1 hu with ⟨-, hf, -⟩ | ⟨lx', text', hf, ht'⟩
    · rw [hfirst] at hf
      cases hf
    · rw [hfirst] at hf
      cases hf
      obtain ⟨hform, hlarge, -⟩ := token?_eq_error_iff.1 ht'
      rw [token?_eq_error_iff.2 ⟨hform, hlarge, rfl⟩] at ht
      cases ht

/-- There is only one place where a text falls apart, whatever the reason. -/
theorem StopsAt.unique {source before rest before' rest' : String} {fault fault' : Fault}
    (h : StopsAt source before rest fault) (h' : StopsAt source before' rest' fault') :
    before = before' ∧ rest = rest' := by
  obtain ⟨rfl, ⟨ts, hs⟩, ⟨lxs, hfront, hwhole⟩, hu⟩ := h
  obtain ⟨hsplit, ⟨ts', hs'⟩, ⟨lxs', hfront', hwhole'⟩, hu'⟩ := h'
  have hrest : rest.toList = rest'.toList := by
    rcases hwhole.comparable hwhole' with ⟨more, rfl, hm⟩ | ⟨more, rfl, hm⟩
    · refine hu.rest_eq hm fun lx hlx => ?_
      exact exists_token?_of_mem hfront' hs' lx (List.mem_append_right _ hlx)
    · refine (hu'.rest_eq hm fun lx hlx => ?_).symm
      exact exists_token?_of_mem hfront hs lx (List.mem_append_right _ hlx)
  obtain rfl := String.toList_inj.1 hrest
  exact ⟨(String.append_left_inj rest).1 hsplit, rfl⟩

theorem stopsAt_iff {source before rest : String} :
    StopsAt source before rest fault ↔ source = before ++ rest ∧ StopsBehind [] before.toList rest.toList fault := by
  constructor
  · rintro ⟨rfl, hs, hl, hu⟩
    rw [String.toList_append] at hl
    exact ⟨rfl, hs, hl, hu⟩
  · rintro ⟨rfl, hs, hl, hu⟩
    rw [← String.toList_append] at hl
    exact ⟨rfl, hs, hl, hu⟩

/-- **Where a scan is refused.** A text cannot be scanned, for a reason, exactly where it falls apart into one that
can be scanned, with pieces that are also the longest where they stand in the whole text, and one at the front of
which nothing can be read for this reason. It falls apart in one such way only, and zeros before a number never
make it too large. -/
theorem scan_eq_error_iff_stopsAt (source : String) :
    (∀ fault, scan source = .error fault ↔ ∃ before rest, StopsAt source before rest fault) ∧
      (∀ before rest fault before' rest' fault', StopsAt source before rest fault →
        StopsAt source before' rest' fault' → before = before' ∧ rest = rest') ∧
      ∀ k digits, Text.decimalValue (List.replicate k '0' ++ digits) = Text.decimalValue digits := by
  refine ⟨fun fault => ⟨fun h => ?_, ?_⟩, fun _ _ _ _ _ _ => StopsAt.unique, decimalValue_replicate_zero⟩
  · have hstart : Place.start = .after .start [] := rfl
    obtain ⟨front, rest, hsplit, hstops⟩ := StopsBehind.of_scanFrom h hstart
    refine ⟨String.ofList front, String.ofList rest, stopsAt_iff.2 ⟨?_, ?_⟩⟩
    · rw [← String.toList_inj, hsplit, String.toList_append, String.toList_ofList, String.toList_ofList]
    · rwa [String.toList_ofList, String.toList_ofList]
  · rintro ⟨before, rest, hstops⟩
    obtain ⟨rfl, hstops'⟩ := stopsAt_iff.1 hstops
    rw [scan, String.toList_append]
    exact hstops'.scanFrom_eq_error

/-- The offset counts bytes, and the text that is shown begins where nothing can be read. -/
example : scan "x\n\x7bé\x7d:é" = .error (.unrecognized 2 6 ":é") := by cbv

end PL0
