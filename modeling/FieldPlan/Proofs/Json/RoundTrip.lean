import FieldPlan.Json.Reader
import FieldPlan.Json.Writer
import FieldPlan.Proofs.Entries
/-!
# Stored text is read back

Values without numbers whose objects have distinct keys are read back from their stored text. Texts
come back character by character: what is escaped on writing is unescaped on reading.
-/
namespace FieldPlan.Json

/-- A value without numbers whose objects have distinct keys, with at most so many arrays and
objects within each other. -/
inductive Storable : Nat → Json → Prop
  | null (room : Nat) : Storable room .null
  | bool (room : Nat) (b : Bool) : Storable room (.bool b)
  | string (room : Nat) (s : String) : Storable room (.string s)
  | array {room : Nat} {items : List Json} (h : ∀ j ∈ items, Storable room j) :
      Storable (room + 1) (.array items)
  | object {room : Nat} {entries : List (String × Json)} (hkeys : (entries.map (·.1)).Nodup)
      (h : ∀ e ∈ entries, Storable room e.2) : Storable (room + 1) (.object entries)

private theorem hexValue?_digitChar : ∀ d < 16,
    Text.FormEncoded.hexValue? (Nat.digitChar d) = some d := by
  decide

private theorem unit?_hexDigits {n : Nat} (hn : n < 65536) (c : Char) (rest : List Char) :
    unit? (Text.hexDigits 4 n ++ c :: rest) = some (n, c :: rest) := by
  have hdigit (k : Nat) := hexValue?_digitChar (k % 16) (Nat.mod_lt k (by decide))
  have hsum : 4096 * (n / 16 / 16 / 16 % 16) + 256 * (n / 16 / 16 % 16) + 16 * (n / 16 % 16) +
      n % 16 = n := by omega
  simp only [Text.hexDigits, List.nil_append, List.cons_append, unit?, hdigit,
    Option.bind_eq_bind, Option.bind_some, pure, hsum]

private theorem unitChar_control {n : Nat} (hn : n < 0x20) (rest : List Char) :
    unitChar n rest = (Char.ofNat n, rest) := by
  have h₁ : ¬(0xd800 ≤ n ∧ n < 0xdc00) := by omega
  have h₂ : ¬(0xdc00 ≤ n ∧ n < 0xe000) := by omega
  unfold unitChar
  simp only [h₁, h₂, if_false]

private theorem stringBody_escape {d : Char} {cs rest : List Char}
    (h : escapedChar cs = .ok (d, rest)) :
    stringBody ('\\' :: cs) = (stringBody rest).map fun p => (d :: p.1, p.2) := by
  rw [stringBody]
  simp only [Char.reduceEq, if_false, if_true]
  split
  · next e he => rw [h] at he; cases he
  · next d' rest' he =>
    obtain ⟨rfl, rfl⟩ := Prod.mk.inj (Except.ok.inj (h.symm.trans he))
    cases stringBody rest <;> rfl

private theorem stringBody_plain {c : Char} (hq : c ≠ '"') (hb : c ≠ '\\') (hc : 0x20 ≤ c.toNat)
    (rest : List Char) :
    stringBody (c :: rest) = (stringBody rest).map fun p => (c :: p.1, p.2) := by
  have hcontrol : ¬c.toNat ≤ 0x1f := by omega
  rw [stringBody]
  simp only [hq, hb, hcontrol, if_false]
  cases stringBody rest <;> rfl

private theorem toNat_eq_ofNat {c : Char} {n : Nat} (h : c.toNat = n) : c = Char.ofNat n := by
  rw [← h, Char.ofNat_toNat]

private theorem stringBody_stringChar (c d : Char) (rest : List Char) :
    stringBody (stringChar false c ++ d :: rest) =
      (stringBody (d :: rest)).map fun p => (c :: p.1, p.2) := by
  unfold stringChar
  by_cases hquote : c = '"'
  · subst hquote; exact stringBody_escape rfl
  by_cases hslash : c = '\\'
  · subst hslash; exact stringBody_escape rfl
  by_cases hn : c = '\n'
  · subst hn; exact stringBody_escape rfl
  by_cases hr : c = '\r'
  · subst hr; exact stringBody_escape rfl
  by_cases ht : c = '\t'
  · subst ht; exact stringBody_escape rfl
  rw [if_neg hquote, if_neg hslash, if_neg hn, if_neg hr, if_neg ht]
  by_cases hb : c.toNat = 0x08
  · rw [if_pos hb, toNat_eq_ofNat hb]; exact stringBody_escape rfl
  by_cases hf : c.toNat = 0x0c
  · rw [if_neg hb, if_pos hf, toNat_eq_ofNat hf]; exact stringBody_escape rfl
  rw [if_neg hb, if_neg hf]
  by_cases hcontrol : c.toNat < 0x20
  · rw [if_pos hcontrol]
    apply stringBody_escape
    change escapedChar ('u' :: (Text.hexDigits 4 c.toNat ++ d :: rest)) = _
    simp only [escapedChar]
    rw [unit?_hexDigits (by omega)]
    simp only [unitChar_control hcontrol, Char.ofNat_toNat]
  · rw [if_neg hcontrol]
    exact stringBody_plain hquote hslash (by omega) _

theorem stringBody_stringChars (cs : List Char) (rest : List Char) :
    stringBody (cs.flatMap (stringChar false) ++ '"' :: rest) = .ok (cs, rest) := by
  induction cs with
  | nil =>
    change stringBody ('"' :: rest) = _
    rw [stringBody]
    rfl
  | cons c cs ih =>
    have hne : ∃ d tail, cs.flatMap (stringChar false) ++ '"' :: rest = d :: tail := by
      cases hcs : cs.flatMap (stringChar false) with
      | nil => exact ⟨_, _, rfl⟩
      | cons d tail => exact ⟨_, _, rfl⟩
    obtain ⟨d, tail, htail⟩ := hne
    rw [List.flatMap_cons, List.append_assoc, htail, stringBody_stringChar, ← htail, ih]
    rfl

/-- How a stored value starts: with an ASCII character that neither is blank nor ends an array. -/
private def Opens (cs : List Char) : Prop :=
  ∃ c rest, cs = c :: rest ∧ isSpace c = false ∧ c ≠ ']' ∧ c.toNat < 0x80

private theorem Opens.append {cs : List Char} (h : Opens cs) (rest : List Char) :
    Opens (cs ++ rest) := by
  obtain ⟨c, more, rfl, hc⟩ := h
  exact ⟨c, more ++ rest, rfl, hc⟩

private theorem Opens.skipSpace {cs : List Char} (h : Opens cs) : skipSpace cs = cs := by
  obtain ⟨c, rest, rfl, hc, -⟩ := h
  simp [Json.skipSpace, hc]

private theorem opens_writeChars {room : Nat} {j : Json} (h : Storable room j) :
    Opens (writeChars stored j) := by
  cases h with
  | null => exact ⟨'n', _, rfl, by decide⟩
  | bool room b => cases b <;> exact ⟨_, _, rfl, by decide⟩
  | string room s => exact ⟨'"', _, rfl, by decide⟩
  | array h => rename_i items; cases items <;> exact ⟨'[', _, rfl, by decide⟩
  | object hkeys h =>
    rename_i entries
    rcases entries with _ | ⟨⟨key, j⟩, rest⟩ <;> exact ⟨'\x7b', _, rfl, by decide⟩

private theorem readValue_string (limit : Option Nat) (fuel room : Nat) (s : String)
    (rest : List Char) :
    readValue limit (fuel + 1) room (stringChars false s ++ rest) = .ok (.string s, rest) := by
  have hbody := stringBody_stringChars s.toList rest
  simp only [stringChars, List.cons_append, List.append_assoc, List.nil_append, readValue]
  rw [hbody]
  simp [Bind.bind, Except.bind, pure, Except.pure]

private theorem writeItems_cons (j : Json) (rest : List Json) :
    writeItems stored (j :: rest) = ',' :: ' ' :: (writeChars stored j ++ writeItems stored rest) :=
  rfl

private theorem writeEntries_cons (key : String) (j : Json) (rest : List (String × Json)) :
    writeEntries stored ((key, j) :: rest) = ',' :: ' ' :: (stringChars false key ++
      ':' :: ' ' :: (writeChars stored j ++ writeEntries stored rest)) := by
  simp [writeEntries, stored]

private theorem skipSpace_blank (cs : List Char) : skipSpace (' ' :: cs) = skipSpace cs := rfl

private theorem skipSpace_mark {c : Char} (h : isSpace c = false) (cs : List Char) :
    skipSpace (c :: cs) = c :: cs := by
  simp [skipSpace, h]

/-- With fuel for every character, the value is read back and nothing behind it is touched. -/
private def ReadsBack (room : Nat) (j : Json) : Prop :=
  ∀ limit fuel rest, (writeChars stored j).length ≤ fuel →
    readValue limit fuel room (writeChars stored j ++ rest) = .ok (j, rest)

private theorem readItems_writeItems {room : Nat} (limit : Option Nat) (rest : List Char) (j : Json)
    (others : List Json) (hj : ReadsBack room j)
    (hothers : ∀ k ∈ others, ReadsBack room k ∧ Opens (writeChars stored k)) (fuel : Nat)
    (hfuel : (writeChars stored j).length + (writeItems stored others).length < fuel) :
    readItems limit fuel room (writeChars stored j ++ (writeItems stored others ++ ']' :: rest)) =
      .ok (j :: others, rest) := by
  induction others generalizing j fuel with
  | nil =>
    cases fuel with
    | zero => omega
    | succ fuel =>
      have hread := hj limit fuel (']' :: rest) (by omega)
      simp only [writeItems, List.nil_append, readItems, hread, Bind.bind, Except.bind,
        skipSpace_mark (c := ']') rfl, pure, Except.pure]
  | cons k ks ih =>
    cases fuel with
    | zero => omega
    | succ fuel =>
      obtain ⟨hk, hopen⟩ := hothers k List.mem_cons_self
      have hlength := congrArg List.length (writeItems_cons k ks)
      simp only [List.length_cons, List.length_append] at hlength
      have hread := hj limit fuel (writeItems stored (k :: ks) ++ ']' :: rest) (by omega)
      have hmore := ih k hk (fun k' h' => hothers k' (List.mem_cons_of_mem k h')) fuel (by omega)
      have hskip := (hopen.append (writeItems stored ks ++ ']' :: rest)).skipSpace
      simp only [readItems, hread, Bind.bind, Except.bind]
      simp only [writeItems_cons, List.cons_append, List.append_assoc,
        skipSpace_mark (c := ',') rfl, skipSpace_blank, hskip, hmore, pure, Except.pure]

private theorem readEntries_writeEntries {room : Nat} (limit : Option Nat) (rest : List Char)
    (key : String) (j : Json) (others : List (String × Json))
    (hj : ReadsBack room j ∧ Opens (writeChars stored j))
    (hothers : ∀ e ∈ others, ReadsBack room e.2 ∧ Opens (writeChars stored e.2))
    (before : Entries Json) (hkeys : (before.keys ++ key :: others.map (·.1)).Nodup) (fuel : Nat)
    (hfuel : (stringChars false key).length + (writeChars stored j).length +
      (writeEntries stored others).length < fuel) :
    readEntries limit fuel room before (stringChars false key ++ ':' :: ' ' ::
        (writeChars stored j ++ (writeEntries stored others ++ '\x7d' :: rest))) =
      .ok (before ++ (key, j) :: others, rest) := by
  have hnew : key ∉ before.keys := by
    intro hm
    exact (List.nodup_append.mp hkeys).2.2 key hm key List.mem_cons_self rfl
  induction others generalizing key j before fuel with
  | nil =>
    cases fuel with
    | zero => omega
    | succ fuel =>
      have hskip := (hj.2.append ('\x7d' :: rest)).skipSpace
      have hread := hj.1 limit fuel ('\x7d' :: rest) (by omega)
      simp only [stringChars, List.cons_append, List.append_assoc, List.nil_append, readEntries,
        stringBody_stringChars, Bind.bind, Except.bind, skipSpace_mark (c := ':') rfl,
        skipSpace_blank, writeEntries, hskip, hread, skipSpace_mark (c := '\x7d') rfl,
        String.ofList_toList, Entries.set_of_notMem j hnew]
      simp [pure, Except.pure]
  | cons e es ih =>
    obtain ⟨nextKey, k⟩ := e
    cases fuel with
    | zero => omega
    | succ fuel =>
      have hlength := congrArg List.length (writeEntries_cons nextKey k es)
      simp only [List.length_cons, List.length_append] at hlength
      have hskip :=
        (hj.2.append (writeEntries stored ((nextKey, k) :: es) ++ '\x7d' :: rest)).skipSpace
      have hread := hj.1 limit fuel (writeEntries stored ((nextKey, k) :: es) ++ '\x7d' :: rest)
        (by omega)
      have hnext : ((before ++ [(key, j)] : Entries Json).keys ++
          nextKey :: es.map (·.1)).Nodup := by
        simpa [Entries.keys] using hkeys
      have hmore := ih nextKey k (hothers _ List.mem_cons_self)
        (fun e' h' => hothers e' (List.mem_cons_of_mem _ h')) (before ++ [(key, j)]) hnext fuel
        (by omega) (by
          intro hm
          exact (List.nodup_append.mp hnext).2.2 nextKey hm nextKey List.mem_cons_self rfl)
      have hquote : skipSpace (stringChars false nextKey ++ ':' :: ' ' :: (writeChars stored k ++
          (writeEntries stored es ++ '\x7d' :: rest))) = stringChars false nextKey ++ ':' :: ' ' ::
          (writeChars stored k ++ (writeEntries stored es ++ '\x7d' :: rest)) := rfl
      rw [stringChars]
      simp only [List.cons_append, List.append_assoc, List.nil_append, readEntries,
        stringBody_stringChars, Bind.bind, Except.bind, skipSpace_mark (c := ':') rfl,
        skipSpace_blank, hskip, hread, String.ofList_toList, Entries.set_of_notMem j hnew]
      simp only [writeEntries_cons, List.cons_append, List.append_assoc,
        skipSpace_mark (c := ',') rfl, skipSpace_blank, hquote, hmore, List.nil_append]

private theorem readValue_array {room : Nat} (j : Json) (rest : List Json)
    (h : ∀ k ∈ j :: rest, ReadsBack room k ∧ Opens (writeChars stored k)) :
    ReadsBack (room + 1) (.array (j :: rest)) := by
  intro limit fuel tail hfuel
  have hj := h j List.mem_cons_self
  simp only [writeChars, List.length_cons, List.length_append, List.length_nil] at hfuel
  cases fuel with
  | zero => omega
  | succ fuel =>
    have hitems := readItems_writeItems limit tail j rest hj.1
      (fun k hk => h k (List.mem_cons_of_mem j hk)) fuel (by omega)
    obtain ⟨c, more, hc, hspace, hclose, -⟩ :=
      hj.2.append (writeItems stored rest ++ ']' :: tail)
    simp only [writeChars, List.cons_append, List.append_assoc, List.nil_append, readValue]
    rw [hc] at hitems ⊢
    rw [skipSpace_mark hspace]
    simp only [Nat.add_one_ne_zero, if_false, Nat.add_sub_cancel]
    split
    · next heq => exact absurd (List.cons.inj heq).1 hclose
    · simp only [hitems, Bind.bind, Except.bind, pure, Except.pure]

private theorem readValue_brace (limit : Option Nat) (fuel room : Nat) (cs : List Char) :
    readValue limit (fuel + 1) (room + 1) ('\x7b' :: '"' :: cs) =
      (do
        let (entries, tail) ← readEntries limit fuel room [] ('"' :: cs)
        return (.object entries, tail)) :=
  rfl

private theorem readValue_object {room : Nat} (key : String) (j : Json)
    (rest : List (String × Json)) (hkeys : (((key, j) :: rest).map (·.1)).Nodup)
    (h : ∀ e ∈ (key, j) :: rest, ReadsBack room e.2 ∧ Opens (writeChars stored e.2)) :
    ReadsBack (room + 1) (.object ((key, j) :: rest)) := by
  intro limit fuel tail hfuel
  have hsep : stored.keySeparator.toList = [':', ' '] := rfl
  have hascii : stored.asciiOnly = false := rfl
  simp only [writeChars, hsep, hascii, List.length_cons, List.length_append, List.length_nil]
    at hfuel
  cases fuel with
  | zero => omega
  | succ fuel =>
    have hentries := readEntries_writeEntries limit tail key j rest (h _ List.mem_cons_self)
      (fun e he => h e (List.mem_cons_of_mem _ he)) [] (by simpa [Entries.keys] using hkeys) fuel
      (by omega)
    simp only [writeChars, hsep, hascii, stringChars, List.cons_append, List.append_assoc,
      List.nil_append] at hentries ⊢
    rw [readValue_brace, hentries]
    rfl

private theorem readValue_word {j : Json} {w : String} (room : Nat)
    (hwritten : writeChars stored j = w.toList)
    (hscalar : ∀ limit fuel rest,
      readValue limit (fuel + 1) room (w.toList ++ rest) = .ok (j, rest))
    (hw : w.toList ≠ []) : ReadsBack room j := by
  intro limit fuel rest hfuel
  rw [hwritten] at hfuel ⊢
  cases fuel with
  | zero => exact absurd (List.length_eq_zero_iff.mp (Nat.le_zero.mp hfuel)) hw
  | succ fuel => exact hscalar limit fuel rest

private theorem Storable.readsBack {room : Nat} {j : Json} (h : Storable room j) :
    ReadsBack room j := by
  induction h with
  | null room => exact readValue_word (w := "null") room rfl (fun _ _ _ => rfl) (by decide)
  | bool room b =>
    cases b with
    | false => exact readValue_word (w := "false") room rfl (fun _ _ _ => rfl) (by decide)
    | true => exact readValue_word (w := "true") room rfl (fun _ _ _ => rfl) (by decide)
  | string room s =>
    intro limit fuel rest hfuel
    cases fuel with
    | zero => simp [writeChars, stringChars] at hfuel
    | succ fuel => exact readValue_string limit fuel room s rest
  | @array room items h ih =>
    cases items with
    | nil =>
      exact readValue_word (w := "[]") (room + 1) rfl (fun _ _ _ => rfl) (by decide)
    | cons j rest =>
      exact readValue_array j rest fun k hk => ⟨ih k hk, opens_writeChars (h k hk)⟩
  | @object room entries hkeys h ih =>
    rcases entries with _ | ⟨⟨key, j⟩, rest⟩
    · exact readValue_word (w := "\x7b\x7d") (room + 1) rfl (fun _ _ _ => rfl) (by decide)
    · exact readValue_object key j rest hkeys fun e he => ⟨ih e he, opens_writeChars (h e he)⟩

/-- A value that can be stored is read back from its stored text. -/
theorem read_storedText [Room] {j : Json} (h : Storable Room.reading j) : read j.storedText = .ok j := by
  obtain ⟨c, rest, hc, hspace, -, hascii⟩ := opens_writeChars h
  have hmark : ¬c.toNat = 0xfeff := by omega
  have hread := h.readsBack (some Text.maxIntegerDigits) (2 * rest.length + 4) [] (by
    rw [hc, List.length_cons]
    omega)
  rw [List.append_nil, hc] at hread
  have htext : j.storedText.toList = c :: rest := by
    rw [storedText, write, String.toList_ofList, hc]
  simp only [read, readWithin, htext, hmark, if_false, skipSpace_mark hspace, Limits.standard,
    Option.getD_some, hread]
  rfl

end FieldPlan.Json
