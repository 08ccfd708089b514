import Heritage.Settings.File
import Mathlib.Data.List.Basic

/-!
# What a settings file says about a field

Each line of a settings file says one thing: a value for a key of the current table, the header of a
table, or the header of one more table of a sequence. What a line says does not depend on the lines
before it, but for the table that it belongs to. So a file can be read in two steps, first into
statements and then into a document.

* `readLines_eq`: the two steps make up the reading of a file;
* `about`: whether a statement, with the table that it belongs to, begins its key with a name;
* `Agree.apply`, `agree_of_other`: statements about a name look only at what is written under it,
  and all other statements leave that as it is;
* `Holds.value?_of_mem`, `Holds.value?_congr`: a line for a field gives it its value, and files that
  say the same about a field have the same value for it, whatever else they say.
-/

namespace Heritage.Settings.File

/-! ## Statements -/

/-- What a line says. -/
inductive Statement where
  /-- A value for a key of the current table. -/
  | value (key : List String) (v : Value)
  /-- The header of a table. -/
  | header (key : List String)
  /-- The header of one more table of a sequence. -/
  | element (key : List String)
  deriving DecidableEq, Repr

/-- The key that a statement gives. -/
def Statement.key : Statement → List String
  | .value key _ => key
  | .header key => key
  | .element key => key

/-- The document behind a statement. -/
def Document.apply (d : Document) : Statement → Option Document
  | .value key v => d.addValue key v
  | .header key => d.addHeader key
  | .element key => d.addElement key

/-- Reads what a line says. -/
def readStatement (text : List Char) : Reading Statement :=
  match text with
  | '[' :: '[' :: rest =>
    match readKey rest with
    | some (key, ']' :: ']' :: after) => some (.element key, after)
    | _ => none
  | '[' :: rest =>
    match readKey rest with
    | some (key, ']' :: after) => some (.header key, after)
    | _ => none
  | _ =>
    match readKey text with
    | some (key, '=' :: rest) =>
      match readValue (2 * rest.length + 2) depthLimit (skipSpace rest) with
      | some (v, after) => some (.value key v, after)
      | none => none
    | _ => none

/-- Reads what all lines say. The first argument bounds their number. -/
def readStatements : Nat → List Char → Option (List Statement)
  | 0, _ => none
  | fuel + 1, text =>
    match skipLines text.length text with
    | [] => some []
    | start =>
      match readStatement start with
      | none => none
      | some (s, after) =>
        match lineEnd? (skipComment (skipSpace after)) with
        | none => none
        | some rest => (readStatements fuel rest).map (s :: ·)

theorem readLine_eq (d : Document) (text : List Char) :
    readLine d text = (readStatement text).bind fun r => (d.apply r.1).map (·, r.2) := by
  fun_cases readLine d text <;> simp_all [readStatement, Document.apply]

theorem apply_first (d : Document) (s : Statement) (later : Option (List Statement)) :
    ((later.map (s :: ·)).bind fun ss => ss.foldlM Document.apply d) =
      (d.apply s).bind fun next => later.bind fun ss => ss.foldlM Document.apply next := by
  cases later <;> cases h : d.apply s <;> simp [h]

/-- A file is read by reading what its lines say and taking note of it in order. -/
theorem readLines_eq (fuel : Nat) (d : Document) (text : List Char) :
    readLines fuel d text =
      (readStatements fuel text).bind fun ss => ss.foldlM Document.apply d := by
  induction fuel generalizing d text with
  | zero => rfl
  | succ fuel ih =>
    rw [readLines, readStatements]
    cases skipLines text.length text with
    | nil => rfl
    | cons c start =>
      dsimp only
      rw [readLine_eq]
      cases readStatement (c :: start) with
      | none => rfl
      | some r =>
        obtain ⟨s, after⟩ := r
        rw [Option.bind_some]
        cases hEnd : lineEnd? (skipComment (skipSpace after)) with
        | none => cases d.apply s <;> simp [hEnd]
        | some rest =>
          simp only [hEnd, apply_first]
          cases d.apply s with
          | none => rfl
          | some next => simp only [Option.map_some, hEnd, ih, Option.bind_some]

theorem key_ne_nil_of_readKey {text after : List Char} {key : List String}
    (h : readKey text = some (key, after)) : key ≠ [] := by
  rw [readKey, depthLimit, readKeyParts] at h
  split at h
  · cases h
  · split at h
    · obtain ⟨r, -, hEq⟩ := Option.map_eq_some_iff.mp h
      cases hEq
      exact List.cons_ne_nil _ _
    · cases h
      exact List.cons_ne_nil _ _

theorem key_ne_nil_of_readStatement {text after : List Char} {s : Statement}
    (h : readStatement text = some (s, after)) : s.key ≠ [] := by
  unfold readStatement at h
  split at h
  · split at h
    · rename_i hKey
      cases h
      exact key_ne_nil_of_readKey hKey
    · cases h
  · split at h
    · rename_i hKey
      cases h
      exact key_ne_nil_of_readKey hKey
    · cases h
  · split at h
    · rename_i hKey
      split at h
      · cases h
        exact key_ne_nil_of_readKey hKey
      · cases h
    · cases h

/-- No statement has an empty key. -/
theorem key_ne_nil_of_readStatements {fuel : Nat} {text : List Char} {ss : List Statement}
    (h : readStatements fuel text = some ss) : ∀ s ∈ ss, s.key ≠ [] := by
  induction fuel generalizing text ss with
  | zero => cases h
  | succ fuel ih =>
    rw [readStatements] at h
    split at h
    · cases h
      exact List.forall_mem_nil _
    · split at h
      · cases h
      · rename_i hFirst
        split at h
        · cases h
        · obtain ⟨later, hLater, rfl⟩ := Option.map_eq_some_iff.mp h
          exact List.forall_mem_cons.mpr ⟨key_ne_nil_of_readStatement hFirst, ih hLater⟩

/-! ## Items under a name -/

/-- Two documents have the same items under every key that begins with a name. -/
def Agree (name : String) (items items' : Table (List String) Item) : Prop :=
  ∀ key, key.head? = some name → items.get? key = items'.get? key

section

variable {name : String} {items items' items'' after : Table (List String) Item}

theorem Agree.refl (items : Table (List String) Item) : Agree name items items :=
  fun _ _ => rfl

theorem Agree.symm (h : Agree name items items') : Agree name items' items :=
  fun key hKey => (h key hKey).symm

theorem Agree.trans (h : Agree name items items') (h' : Agree name items' items'') :
    Agree name items items'' :=
  fun key hKey => (h key hKey).trans (h' key hKey)

theorem Agree.insert (h : Agree name items items') (key : List String) (item : Item) :
    Agree name (items.insert key item) (items'.insert key item) := by
  intro other hOther
  rw [Table.get?_insert, Table.get?_insert, h other hOther]

theorem agree_insert {key : List String} (h : key.head? ≠ some name) (item : Item) :
    Agree name (items.insert key item) items := by
  intro other hOther
  rw [Table.get?_insert, if_neg]
  rintro rfl
  exact h hOther

theorem head?_append_cons (above : List String) (part : String) (rest : List String) :
    (above ++ part :: rest).head? = (above ++ [part]).head? := by
  cases above <;> rfl

theorem openTables_of_other {isOpen : Item → Bool} {make : Item} {above parts : List String}
    (h : openTables isOpen make above parts items = some after)
    (hOther : parts ≠ [] → (above ++ parts).head? ≠ some name) : Agree name after items := by
  induction parts generalizing above items with
  | nil =>
    obtain rfl := Option.some.inj h
    exact .refl _
  | cons part rest ih =>
    have hHere : (above ++ [part]).head? ≠ some name := by
      rw [← head?_append_cons above part rest]
      exact hOther (List.cons_ne_nil _ _)
    have hRest : rest ≠ [] → (above ++ [part] ++ rest).head? ≠ some name := fun _ => by
      rw [List.append_assoc, List.singleton_append]
      exact hOther (List.cons_ne_nil _ _)
    rw [openTables] at h
    split at h
    · exact (ih h hRest).trans (agree_insert hHere make)
    · split at h
      · exact ih h hRest
      · cases h

theorem Agree.openTables {isOpen : Item → Bool} {make : Item} {above parts : List String}
    (hAgree : Agree name items items')
    (h : openTables isOpen make above parts items = some after)
    (hName : parts ≠ [] → (above ++ parts).head? = some name) :
    ∃ after', File.openTables isOpen make above parts items' = some after' ∧
      Agree name after after' := by
  induction parts generalizing above items items' with
  | nil =>
    obtain rfl := Option.some.inj h
    exact ⟨items', rfl, hAgree⟩
  | cons part rest ih =>
    have hHere : (above ++ [part]).head? = some name := by
      rw [← head?_append_cons above part rest]
      exact hName (List.cons_ne_nil _ _)
    have hRest : rest ≠ [] → (above ++ [part] ++ rest).head? = some name := fun _ => by
      rw [List.append_assoc, List.singleton_append]
      exact hName (List.cons_ne_nil _ _)
    rw [File.openTables] at h ⊢
    rw [← hAgree _ hHere]
    split at h
    · exact ih (hAgree.insert _ make) h hRest
    · split at h
      · rename_i hOpen
        rw [if_pos hOpen]
        exact ih hAgree h hRest
      · cases h

theorem find?_filter_key (q : List String → Bool) (key : List String)
    (entries : List (List String × Item)) :
    Table.find? key (entries.filter fun e => q e.1) =
      if q key then Table.find? key entries else none := by
  induction entries with
  | nil => simp [Table.find?]
  | cons e rest ih =>
    obtain ⟨k, item⟩ := e
    by_cases hKey : k = key
    · subst hKey
      cases hq : q k <;> simp [Table.find?, hq, ih]
    · cases hq : q k <;> simp [Table.find?, hq, ih, hKey]

/-- Items without those below a key. -/
def withoutBelow (key : List String) (items : Table (List String) Item) :
    Table (List String) Item :=
  ⟨items.entries.filter fun e => !(key.isPrefixOf e.1 && e.1 ≠ key)⟩

theorem get?_withoutBelow (key other : List String) (items : Table (List String) Item) :
    (withoutBelow key items).get? other =
      if !(key.isPrefixOf other && other ≠ key) then items.get? other else none :=
  find?_filter_key (fun k => !(key.isPrefixOf k && k ≠ key)) other items.entries

theorem Agree.withoutBelow (h : Agree name items items') (key : List String) :
    Agree name (withoutBelow key items) (withoutBelow key items') := by
  intro other hOther
  rw [get?_withoutBelow, get?_withoutBelow, h other hOther]

theorem agree_withoutBelow {key : List String} (hKey : key ≠ []) (h : key.head? ≠ some name) :
    Agree name (withoutBelow key items) items := by
  intro other hOther
  rw [get?_withoutBelow, if_pos]
  obtain ⟨part, rest, rfl⟩ := List.exists_cons_of_ne_nil hKey
  obtain ⟨part', rest', rfl⟩ : ∃ part' rest', other = part' :: rest' := by
    cases other with
    | nil => cases hOther
    | cons part' rest' => exact ⟨part', rest', rfl⟩
  have hPart : part ≠ part' := by
    rintro rfl
    exact h hOther
  simp [List.isPrefixOf, hPart]

/-! ## What notes change -/

theorem addValue_eq_some {d d' : Document} {key : List String} {v : Value} :
    d.addValue key v = some d' ↔
      ∃ open', openTables Item.isExtensible .dotted d.current key.dropLast d.items = some open' ∧
        (key.dropLast ≠ [] → open'.get? (d.current ++ key.dropLast) = some .dotted) ∧
        open'.get? (d.current ++ key) = none ∧
        d' = ⟨open'.insert (d.current ++ key) (.value v), d.current⟩ := by
  rw [Document.addValue]
  cases openTables Item.isExtensible .dotted d.current key.dropLast d.items with
  | none => simp
  | some open' =>
    by_cases hDotted : key.dropLast ≠ [] → open'.get? (d.current ++ key.dropLast) = some .dotted
    · have hHolder :
          ¬ (key.dropLast ≠ [] ∧ open'.get? (d.current ++ key.dropLast) ≠ some .dotted) := fun h => h.2 (hDotted h.1)
      cases hTaken : open'.get? (d.current ++ key) with
      | none => simpa [hHolder, hTaken, eq_comm (b := d')] using fun _ => hDotted
      | some item => simp [hTaken]
    · have hHolder : key.dropLast ≠ [] ∧ open'.get? (d.current ++ key.dropLast) ≠ some .dotted :=
        Classical.not_imp.mp hDotted
      simp [hHolder]

theorem addHeader_eq_some {d d' : Document} {key : List String} :
    d.addHeader key = some d' ↔
      ∃ open', openTables Item.isPassable .implied [] key.dropLast d.items = some open' ∧
        (open'.get? key = none ∨ open'.get? key = some .implied) ∧
        d' = ⟨open'.insert key .headed, key⟩ := by
  rw [Document.addHeader]
  cases openTables Item.isPassable .implied [] key.dropLast d.items with
  | none => simp
  | some open' =>
    cases hTaken : open'.get? key with
    | none => simp [hTaken, eq_comm]
    | some item => cases item <;> simp [hTaken, eq_comm]

theorem addElement_eq_some {d d' : Document} {key : List String} :
    d.addElement key = some d' ↔
      ∃ open', openTables Item.isPassable .implied [] key.dropLast d.items = some open' ∧
        (open'.get? key = none ∧ d' = ⟨open'.insert key .tables, key⟩ ∨
          open'.get? key = some .tables ∧ d' = ⟨withoutBelow key open', key⟩) := by
  rw [Document.addElement]
  cases openTables Item.isPassable .implied [] key.dropLast d.items with
  | none => simp
  | some open' =>
    cases hTaken : open'.get? key with
    | none => simp [hTaken, eq_comm]
    | some item => cases item <;> simp [hTaken, withoutBelow, eq_comm]

/-! ## Statements about a name -/

/-- The table that the lines behind a statement belong to. -/
def Statement.table (current : List String) : Statement → List String
  | .value _ _ => current
  | .header key => key
  | .element key => key

/-- The full key of a statement. -/
def Statement.path (current : List String) : Statement → List String
  | .value key _ => current ++ key
  | .header key => key
  | .element key => key

/-- Statements with the tables that they belong to. -/
def located (current : List String) : List Statement → List (List String × Statement)
  | [] => []
  | s :: rest => (current, s) :: located (s.table current) rest

/-- Whether the full key of a statement begins with a name. -/
def about (name : String) (l : List String × Statement) : Bool :=
  (l.2.path l.1).head? = some name

/-- The items behind a statement. -/
def applyAt (items : Table (List String) Item) (l : List String × Statement) :
    Option (Table (List String) Item) :=
  (Document.apply ⟨items, l.1⟩ l.2).map (·.items)

theorem current_of_apply {d d' : Document} {s : Statement} (h : d.apply s = some d') :
    d'.current = s.table d.current := by
  cases s with
  | value key v =>
    obtain ⟨_, -, -, -, rfl⟩ := addValue_eq_some.mp h
    rfl
  | header key =>
    obtain ⟨_, -, -, rfl⟩ := addHeader_eq_some.mp h
    rfl
  | element key =>
    obtain ⟨_, -, ⟨-, rfl⟩ | ⟨-, rfl⟩⟩ := addElement_eq_some.mp h <;> rfl

/-- What statements do to the items depends on the current table only through where they stand. -/
theorem foldlM_apply (d : Document) (ss : List Statement) :
    (ss.foldlM Document.apply d).map (·.items) = (located d.current ss).foldlM applyAt d.items := by
  induction ss generalizing d with
  | nil => rfl
  | cons s rest ih =>
    rw [located, List.foldlM_cons, List.foldlM_cons, applyAt]
    cases h : d.apply s with
    | none => simp
    | some d' => simp [ih, current_of_apply h]

theorem head?_append_dropLast {above key : List String} (h : key.dropLast ≠ []) :
    (above ++ key.dropLast).head? = (above ++ key).head? := by
  match key, h with
  | [_], h => exact absurd rfl h
  | part :: next :: rest, _ => cases above <;> rfl

/-- A statement that is not about a name leaves the items under it as they are. -/
theorem agree_of_other {l : List String × Statement} (hKey : l.2.key ≠ [])
    (hOther : about name l = false) (h : applyAt items l = some after) :
    Agree name after items := by
  obtain ⟨current, s⟩ := l
  obtain ⟨d, hApply, rfl⟩ := Option.map_eq_some_iff.mp h
  have hPath : (s.path current).head? ≠ some name := of_decide_eq_false hOther
  cases s with
  | value key v =>
    obtain ⟨open', hOpen, -, -, rfl⟩ := addValue_eq_some.mp hApply
    refine (agree_insert hPath _).trans (openTables_of_other hOpen fun hParts => ?_)
    rwa [head?_append_dropLast hParts]
  | header key =>
    obtain ⟨open', hOpen, -, rfl⟩ := addHeader_eq_some.mp hApply
    refine (agree_insert hPath _).trans (openTables_of_other hOpen fun hParts => ?_)
    rwa [head?_append_dropLast hParts]
  | element key =>
    obtain ⟨open', hOpen, hEnd⟩ := addElement_eq_some.mp hApply
    have hOpened : Agree name open' items := openTables_of_other hOpen fun hParts => by
      rwa [head?_append_dropLast hParts]
    obtain ⟨-, rfl⟩ | ⟨-, rfl⟩ := hEnd
    · exact (agree_insert hPath _).trans hOpened
    · exact (agree_withoutBelow hKey hPath).trans hOpened

/-- A statement about a name does to the items under it what they alone decide. -/
theorem Agree.apply {l : List String × Statement} (hAgree : Agree name items items')
    (hAbout : about name l = true) (h : applyAt items l = some after) :
    ∃ after', applyAt items' l = some after' ∧ Agree name after after' := by
  obtain ⟨current, s⟩ := l
  obtain ⟨d, hApply, rfl⟩ := Option.map_eq_some_iff.mp h
  have hPath : (s.path current).head? = some name := of_decide_eq_true hAbout
  have done {d' : Document} (hApply' : (Document.mk items' current).apply s = some d')
      (hEnd : Agree name d.items d'.items) :
      ∃ after', applyAt items' (current, s) = some after' ∧ Agree name d.items after' :=
    ⟨d'.items, Option.map_eq_some_iff.mpr ⟨d', hApply', rfl⟩, hEnd⟩
  cases s with
  | value key v =>
    obtain ⟨open', hOpen, hHolder, hFree, rfl⟩ := addValue_eq_some.mp hApply
    obtain ⟨other, hOther, hOpened⟩ := hAgree.openTables hOpen fun hParts => by
      rwa [head?_append_dropLast hParts]
    have hHolder' (hParts : key.dropLast ≠ []) :
        other.get? (current ++ key.dropLast) = some .dotted :=
      (hOpened _ ((head?_append_dropLast hParts).trans hPath)).symm.trans (hHolder hParts)
    rw [hOpened (current ++ key) hPath] at hFree
    exact done (addValue_eq_some.mpr ⟨other, hOther, hHolder', hFree, rfl⟩) (hOpened.insert _ _)
  | header key =>
    obtain ⟨open', hOpen, hFree, rfl⟩ := addHeader_eq_some.mp hApply
    obtain ⟨other, hOther, hOpened⟩ := hAgree.openTables hOpen fun hParts => by
      rwa [head?_append_dropLast hParts]
    rw [hOpened key hPath] at hFree
    exact done (addHeader_eq_some.mpr ⟨other, hOther, hFree, rfl⟩) (hOpened.insert _ _)
  | element key =>
    obtain ⟨open', hOpen, hEnd⟩ := addElement_eq_some.mp hApply
    obtain ⟨other, hOther, hOpened⟩ := hAgree.openTables hOpen fun hParts => by
      rwa [head?_append_dropLast hParts]
    rw [hOpened key hPath] at hEnd
    obtain ⟨hFree, rfl⟩ | ⟨hSequence, rfl⟩ := hEnd
    · exact done (addElement_eq_some.mpr ⟨other, hOther, .inl ⟨hFree, rfl⟩⟩) (hOpened.insert _ _)
    · exact done (addElement_eq_some.mpr ⟨other, hOther, .inr ⟨hSequence, rfl⟩⟩)
        (hOpened.withoutBelow _)

/-- The statements about a name alone bring about the items under it. -/
theorem Agree.foldlM {ls : List (List String × Statement)} (hAgree : Agree name items items')
    (hKeys : ∀ l ∈ ls, l.2.key ≠ []) (h : ls.foldlM applyAt items = some after) :
    ∃ after', (ls.filter (about name)).foldlM applyAt items' = some after' ∧
      Agree name after after' := by
  induction ls generalizing items items' with
  | nil =>
    obtain rfl := Option.some.inj h
    exact ⟨items', rfl, hAgree⟩
  | cons l rest ih =>
    obtain ⟨hKey, hRest⟩ := List.forall_mem_cons.mp hKeys
    rw [List.foldlM_cons] at h
    obtain ⟨between, hFirst, hLater⟩ := Option.bind_eq_some_iff.mp h
    cases hAbout : about name l with
    | false =>
      rw [List.filter_cons_of_neg (by simp [hAbout])]
      exact ih ((agree_of_other hKey hAbout hFirst).trans hAgree) hRest hLater
    | true =>
      rw [List.filter_cons_of_pos hAbout, List.foldlM_cons]
      obtain ⟨between', hFirst', hBetween⟩ := hAgree.apply hAbout hFirst
      rw [hFirst']
      exact ih hBetween hRest hLater

end

/-! ## Values stay -/

section

variable {key : List String} {v : Value} {items after : Table (List String) Item}

theorem get?_insert_of_ne {other : List String} {item : Item}
    (hValue : items.get? key = some (.value v)) (hOther : items.get? other ≠ some (.value v)) :
    (items.insert other item).get? key = some (.value v) := by
  rw [Table.get?_insert, if_neg, hValue]
  rintro rfl
  exact hOther hValue

theorem openTables_value {isOpen : Item → Bool} {make : Item} {above parts : List String}
    (h : openTables isOpen make above parts items = some after)
    (hValue : items.get? key = some (.value v)) : after.get? key = some (.value v) := by
  induction parts generalizing above items with
  | nil =>
    obtain rfl := Option.some.inj h
    exact hValue
  | cons part rest ih =>
    rw [openTables] at h
    split at h
    · rename_i hFree
      exact ih h (get?_insert_of_ne hValue (by simp [hFree]))
    · split at h
      · exact ih h hValue
      · cases h

/-- A value that a table at the top has taken up stays, whatever lines follow. -/
theorem applyAt_value {name : String} {l : List String × Statement} (hKey : l.2.key ≠ [])
    (h : applyAt items l = some after) (hValue : items.get? [name] = some (.value v)) :
    after.get? [name] = some (.value v) := by
  obtain ⟨current, s⟩ := l
  obtain ⟨d, hApply, rfl⟩ := Option.map_eq_some_iff.mp h
  cases s with
  | value key' v' =>
    obtain ⟨open', hOpen, -, hFree, rfl⟩ := addValue_eq_some.mp hApply
    exact get?_insert_of_ne (openTables_value hOpen hValue) (by simp [hFree])
  | header key' =>
    obtain ⟨open', hOpen, hFree, rfl⟩ := addHeader_eq_some.mp hApply
    refine get?_insert_of_ne (openTables_value hOpen hValue) ?_
    rcases hFree with hFree | hFree <;> simp [hFree]
  | element key' =>
    obtain ⟨open', hOpen, hEnd⟩ := addElement_eq_some.mp hApply
    have hOpened : open'.get? [name] = some (.value v) := openTables_value hOpen hValue
    obtain ⟨hFree, rfl⟩ | ⟨-, rfl⟩ := hEnd
    · exact get?_insert_of_ne hOpened (by simp [hFree])
    · -- a key of one part is below no other key
      rw [get?_withoutBelow, if_pos, hOpened]
      match key', hKey with
      | [part], _ => by_cases hEq : part = name <;> simp [List.isPrefixOf, hEq]
      | _ :: _ :: _, _ => simp [List.isPrefixOf]

theorem foldlM_value {name : String} {ls : List (List String × Statement)}
    (hKeys : ∀ l ∈ ls, l.2.key ≠ []) (h : ls.foldlM applyAt items = some after)
    (hValue : items.get? [name] = some (.value v)) : after.get? [name] = some (.value v) := by
  induction ls generalizing items with
  | nil =>
    obtain rfl := Option.some.inj h
    exact hValue
  | cons l rest ih =>
    obtain ⟨hKey, hRest⟩ := List.forall_mem_cons.mp hKeys
    rw [List.foldlM_cons] at h
    obtain ⟨between, hFirst, hLater⟩ := Option.bind_eq_some_iff.mp h
    exact ih hRest hLater (applyAt_value hKey hFirst hValue)

/-- A line at the top of a file gives its key the value that it names. -/
theorem foldlM_of_mem {name : String} {ls : List (List String × Statement)}
    (hKeys : ∀ l ∈ ls, l.2.key ≠ []) (h : ls.foldlM applyAt items = some after)
    (hMem : ([], .value [name] v) ∈ ls) : after.get? [name] = some (.value v) := by
  obtain ⟨before, later, rfl⟩ := List.append_of_mem hMem
  rw [List.foldlM_append] at h
  obtain ⟨between, -, hHere⟩ := Option.bind_eq_some_iff.mp h
  rw [List.foldlM_cons] at hHere
  obtain ⟨next, hNext, hLater⟩ := Option.bind_eq_some_iff.mp hHere
  refine foldlM_value (fun l hl => hKeys l (by simp [hl])) hLater ?_
  obtain ⟨d, hApply, rfl⟩ := Option.map_eq_some_iff.mp hNext
  have hAdd : (Document.mk between []).addValue [name] v = some d := hApply
  obtain ⟨open', -, -, -, rfl⟩ := addValue_eq_some.mp hAdd
  exact (Table.get?_insert _ _ _ _).trans (if_pos rfl)

end

/-! ## Files -/

/-- What a file says, each statement with the table that it belongs to; nothing if a line does not
parse. -/
def statements? (text : String) : Option (List (List String × Statement)) :=
  let body :=
    match text.toList with
    | '\ufeff' :: rest => rest
    | all => all
  (readStatements (body.length + 1) body).map (located [])

/-- The values of the fields among items. -/
def valuesOf (items : Table (List String) Item) : FileValues :=
  ⟨(items.get? [Field.platformRoot.key]).map Item.asValue,
    (items.get? [Field.propertiesFile.key]).map Item.asValue⟩

theorem value?_valuesOf (items : Table (List String) Item) (field : Field) :
    (valuesOf items).value? field = (items.get? [field.key]).map Item.asValue := by
  cases field <;> rfl

/-- The values of a file are those among the items that its statements bring about. -/
theorem parse?_eq (text : String) :
    FileValues.parse? text =
      ((statements? text).bind fun ls => ls.foldlM applyAt .empty).map valuesOf := by
  unfold FileValues.parse? statements?
  simp only [readLines_eq, Option.bind_map]
  cases readStatements _ _ with
  | none => rfl
  | some ss =>
    have hItems := foldlM_apply .empty ss
    rw [Option.bind_some, Option.bind_some, Function.comp_apply]
    rw [show (Table.empty : Table (List String) Item) = Document.empty.items from rfl,
      show ([] : List String) = Document.empty.current from rfl, ← hItems, Option.map_map]
    rfl

theorem mem_of_mem_located {current : List String} {ss : List Statement}
    {l : List String × Statement} (h : l ∈ located current ss) : l.2 ∈ ss := by
  induction ss generalizing current with
  | nil => cases h
  | cons s rest ih =>
    rcases List.mem_cons.mp h with rfl | hRest
    · exact List.mem_cons_self
    · exact List.mem_cons_of_mem s (ih hRest)

/-- A settings file, or none, with what it says and the values that it holds. -/
inductive Holds : Option String → List (List String × Statement) → FileValues → Prop
  | absent : Holds none [] .empty
  | parsed {text : String} {ls : List (List String × Statement)} {values : FileValues}
    (hSays : statements? text = some ls) (hParse : FileValues.parse? text = some values) :
    Holds (some text) ls values

theorem unparsable_or_holds (file : Option String) :
    (∃ text, file = some text ∧ FileValues.parse? text = none) ∨
      ∃ ls values, Holds file ls values := by
  cases file with
  | none => exact .inr ⟨[], .empty, .absent⟩
  | some text =>
    cases hParse : FileValues.parse? text with
    | none => exact .inl ⟨text, rfl, hParse⟩
    | some values =>
      have hItems := hParse
      rw [parse?_eq] at hItems
      obtain ⟨items, hItems, -⟩ := Option.map_eq_some_iff.mp hItems
      obtain ⟨ls, hSays, -⟩ := Option.bind_eq_some_iff.mp hItems
      exact .inr ⟨ls, values, .parsed hSays hParse⟩

namespace Holds

variable {file file' : Option String} {ls ls' : List (List String × Statement)}
  {values values' : FileValues} {field : Field} {v : Value}

theorem key_ne_nil (h : Holds file ls values) : ∀ l ∈ ls, l.2.key ≠ [] := by
  cases h with
  | absent => exact List.forall_mem_nil _
  | parsed hSays _ =>
    obtain ⟨ss, hRead, rfl⟩ := Option.map_eq_some_iff.mp hSays
    exact fun l hl => key_ne_nil_of_readStatements hRead _ (mem_of_mem_located hl)

theorem exists_items (h : Holds file ls values) :
    ∃ items, ls.foldlM applyAt .empty = some items ∧ values = valuesOf items := by
  cases h with
  | absent => exact ⟨.empty, rfl, rfl⟩
  | parsed hSays hParse =>
    rw [parse?_eq, hSays] at hParse
    obtain ⟨items, hItems, rfl⟩ := Option.map_eq_some_iff.mp hParse
    exact ⟨items, hItems, rfl⟩

/-- What a file says about a field alone gives the value of that field. -/
theorem exists_items_about (h : Holds file ls values) (field : Field) :
    ∃ items, (ls.filter (about field.key)).foldlM applyAt .empty = some items ∧
      values.value? field = (items.get? [field.key]).map Item.asValue := by
  obtain ⟨items, hItems, rfl⟩ := h.exists_items
  obtain ⟨items', hItems', hAgree⟩ := (Agree.refl .empty).foldlM h.key_ne_nil hItems
  exact ⟨items', hItems', by rw [value?_valuesOf, hAgree [field.key] rfl]⟩

/-- A field has the value that a line at the top of the file names for its key. -/
theorem value?_of_mem (h : Holds file ls values) (hMem : ([], .value [field.key] v) ∈ ls) :
    values.value? field = some v := by
  obtain ⟨items, hItems, rfl⟩ := h.exists_items
  rw [value?_valuesOf, foldlM_of_mem h.key_ne_nil hItems hMem]
  rfl

/-- A field has no value in a file that says nothing about it. -/
theorem value?_of_silent (h : Holds file ls values)
    (hSilent : ∀ l ∈ ls, about field.key l = false) : values.value? field = none := by
  obtain ⟨items, hItems, hValue⟩ := h.exists_items_about field
  rw [List.filter_eq_nil_iff.mpr (by simpa using hSilent)] at hItems
  obtain rfl := Option.some.inj hItems
  exact hValue

/-- Files that say the same about a field have the same value for it, whatever else they say. -/
theorem value?_congr (h : Holds file ls values) (h' : Holds file' ls' values')
    (hSame : ls'.filter (about field.key) = ls.filter (about field.key)) :
    values'.value? field = values.value? field := by
  obtain ⟨items, hItems, hValue⟩ := h.exists_items_about field
  obtain ⟨items', hItems', hValue'⟩ := h'.exists_items_about field
  rw [hSame, hItems] at hItems'
  obtain rfl := Option.some.inj hItems'
  rw [hValue, hValue']

end Holds

end Heritage.Settings.File
