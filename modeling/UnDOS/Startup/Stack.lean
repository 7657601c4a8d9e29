import UnDOS.Startup.Parsing

/-!
# The Entry Stack

`write_stack` fills its storage from the front: a table of words, then the packed strings (`block`).
-/

namespace UnDOS.Startup

open UnDOS.Lib
open UnDOS.Lib.Prog (Ends)
open UnDOS.Kernel

/-! ## What is written -/

/-- Where the table of argument pointers is, for the stack at `address`. -/
def argvAddress (address : Nat) : Nat := address + 64

/-- The words at the front of the stack, with a pointer for each of the offsets. -/
def stackWords (address startupEvent : Nat) (offsets : List Nat) : List Nat :=
  let argc := offsets.length
  let envp := argvAddress address + (argc + 1) * 4
  [0, address + 16, startupEvent, 0, 48, 1, argc, argvAddress address, envp, 0, 0, 0, 0, 0, 0, 0] ++
    offsets.map (envp + 4 + ·) ++ [0, 0]

section Writing

variable {capacity : Nat} {m : ByteStore} {E : KernelError → Prop}

theorem store_ends {l data : List UInt8} (h : HasPrefix m l)
    (hroom : (l ++ data).length ≤ capacity) :
    Ends (store capacity l.length data) m E fun _ m' => HasPrefix m' (l ++ data) := by
  unfold store
  rw [List.length_append] at hroom
  rw [if_pos hroom]
  exact Ends.modify (h.append data)

theorem storeWord_ends {ws : List Nat} (h : HasPrefix m (wordBytes ws)) (v : Nat)
    (hroom : 4 * (ws.length + 1) ≤ capacity) :
    Ends (storeWord capacity ws.length v) m E fun _ m' => HasPrefix m' (wordBytes (ws ++ [v])) := by
  have hbytes : wordBytes (ws ++ [v]) = wordBytes ws ++ leBytes 4 v := by
    rw [wordBytes_append]
    exact congrArg _ (List.append_nil _)
  rw [hbytes]
  unfold storeWord
  rw [← wordBytes_length]
  apply store_ends h
  rw [List.length_append, wordBytes_length, leBytes_length]
  omega

theorem storeWords_ends {vs : List Nat} :
    ∀ {ws : List Nat} {m : ByteStore}, HasPrefix m (wordBytes ws) →
      4 * (ws.length + vs.length) ≤ capacity →
      Ends (storeWords capacity ws.length vs) m E fun _ m' =>
        HasPrefix m' (wordBytes (ws ++ vs)) := by
  induction vs with
  | nil =>
    intro ws m h _
    exact Ends.pure (by rwa [List.append_nil])
  | cons v vs ih =>
    intro ws m h hroom
    rw [List.length_cons] at hroom
    refine (storeWord_ends h v (by omega)).bind fun _ m₁ h₁ => ?_
    have hlen : (ws ++ [v]).length = ws.length + 1 := by
      rw [List.length_append, List.length_singleton]
    have hrest := ih h₁ (by rw [hlen]; omega)
    rw [hlen] at hrest
    refine hrest.mono fun _ m₂ h₂ => ?_
    rw [List.append_assoc] at h₂
    exact h₂

end Writing

variable {strings : List (List UInt8)}

/-- What `write_stack` writes when it succeeds.  It stays in its storage. -/
theorem writeStack_ends {capacity address startupEvent : Nat} {args : Arguments}
    (hpacked : Packed args strings) (m : ByteStore) :
    Ends (writeStack capacity address args startupEvent) m (fun _ => True) fun _ m' =>
      (args.argc ≤ maxArguments ∧ args.argc ≠ 0) ∧ address + stackSize args < 2 ^ 32 ∧
      HasPrefix m' (wordBytes (stackWords address startupEvent
        ((List.range args.argc).map args.offsets)) ++ pack strings) := by
  have hcount : ((List.range args.argc).map args.offsets).length = args.argc := by
    rw [List.length_map, List.length_range]
  refine Ends.ite (fun _ => Ends.throw trivial) fun hvalid => ?_
  refine Ends.ite (fun _ => Ends.throw trivial) fun hcapacity => ?_
  refine Ends.ite (fun _ => Ends.throw trivial) fun _ => ?_
  refine Ends.ite (fun _ => Ends.throw trivial) fun hspace => ?_
  have hsize : 4 * (16 + args.argc + 2) + args.bytes ≤ stackSize args := by
    unfold stackSize infoSize
    omega
  have hsmall : stackSize args ≤ 2000 := by
    unfold stackSize infoSize
    unfold maxArguments textCapacity pathCapacity argumentCapacity at hvalid
    omega
  -- The words, in the order in which they are written: first those that do not depend on the count.
  have hempty : HasPrefix m (wordBytes []) := HasPrefix.nil m
  refine (storeWords_ends hempty
    (by simp only [List.length_cons, List.length_nil]; omega)).bind fun _ m₁ h₁ => ?_
  refine (storeWords_ends h₁
    (by simp only [List.length_append, List.length_cons, List.length_nil]; omega)).bind
    fun _ m₂ h₂ => ?_
  set front : List Nat := [] ++ [0, address + 16, startupEvent, 0] ++
    [infoSize, abiVersion, args.argc,
    address + 16 + infoSize, address + 16 + infoSize + (args.argc + 1) * 4, 0, 0, 0, 0, 0, 0, 0]
    with hfront
  have hfrontLength : front.length = 16 := rfl
  let pointer (i : Nat) : Nat := address + 16 + infoSize + (args.argc + 1) * 4 + 4 + args.offsets i
  refine (Ends.forRange (fun i m' => HasPrefix m' (wordBytes (front ++ (List.range i).map pointer)))
    (by rw [List.range_zero]; exact h₂) fun i hi m' h' => ?_).bind
    fun _ m₃ h₃ => ?_
  · have hlen : (front ++ (List.range i).map pointer).length = 16 + i := by
      rw [List.length_append, List.length_map, List.length_range, hfrontLength]
    have hword : Ends (storeWord capacity _ (pointer i)) m' (fun _ => True) _ := storeWord_ends h' _
      (by rw [hlen]; omega)
    rw [hlen] at hword
    refine hword.mono fun _ m'' h'' => ?_
    rw [List.range_succ, List.map_append]
    exact h''
  have hlen : (front ++ (List.range args.argc).map pointer).length = 16 + args.argc := by
    rw [List.length_append, List.length_map, List.length_range, hfrontLength]
  have hnull : Ends (storeWord capacity _ 0) m₃ (fun _ => True) _ :=
    storeWord_ends h₃ 0 (by rw [hlen]; omega)
  rw [hlen] at hnull
  refine hnull.bind fun _ m₄ h₄ => ?_
  have hlen' : (front ++ (List.range args.argc).map pointer ++ [0]).length =
      16 + args.argc + 1 := by
    rw [List.length_append, hlen]
    rfl
  have hnull' : Ends (storeWord capacity _ 0) m₄ (fun _ => True) _ :=
    storeWord_ends h₄ 0 (by rw [hlen']; omega)
  rw [hlen'] at hnull'
  refine hnull'.bind fun _ m₅ h₅ => ?_
  -- The words are complete; the text follows them byte by byte.
  have hwords : front ++ (List.range args.argc).map pointer ++ [0] ++ [0] =
      stackWords address startupEvent ((List.range args.argc).map args.offsets) := by
    unfold stackWords argvAddress
    dsimp only
    rw [hcount, List.map_map, List.append_assoc]
    rfl
  rw [hwords] at h₅
  set words := stackWords address startupEvent ((List.range args.argc).map args.offsets)
  have hwordsLength : (wordBytes words).length = 4 * (16 + args.argc + 2) := by
    rw [wordBytes_length, ← hwords, List.length_append, hlen']
    rfl
  refine (Ends.forRange (fun i m' => HasPrefix m' (wordBytes words ++ (pack strings).take i))
    (by rw [List.take_zero, List.append_nil]; exact h₅) fun i hi m' h' => ?_).mono
    fun _ m₆ h₆ => ⟨by omega, by omega, ?_⟩
  · have hi' : i < (pack strings).length := hpacked.bytes ▸ hi
    have hbyte : args.text i = (pack strings)[i] := hpacked.text.byte hi'
    have hstart : (wordBytes words ++ (pack strings).take i).length =
        4 * (16 + args.argc + 2) + i := by
      rw [List.length_append, hwordsLength, List.length_take, min_eq_left hi'.le]
    have hstore : Ends (store capacity _ [args.text i]) m' (fun _ => True) _ := store_ends h'
      (by rw [List.length_append, List.length_singleton]; omega)
    rw [hstart] at hstore
    refine hstore.mono fun _ m'' h'' => ?_
    rw [List.append_assoc, hbyte, List.take_append_getElem hi'] at h''
    exact h''
  · rw [hpacked.bytes, List.take_length] at h₆
    exact h₆

/-! ## What is read -/

/-- The memory at `address` is the storage. -/
def placedAt (address : Nat) (m : ByteStore) : ByteStore := fun a => m (a - address)

theorem readAt_placedAt (address : Nat) (m : ByteStore) (k n : Nat) :
    readAt (placedAt address m) (address + k) n = readAt m k n := by
  apply readAt_congr
  intro i _
  unfold placedAt
  rw [add_assoc, Nat.add_sub_cancel_left]

section Reading

variable {address size : Nat} {m : ByteStore} {ws : List Nat} {text : List UInt8}

theorem readWord_eq (h : HasPrefix m (wordBytes ws ++ text)) (hsize : 4 * ws.length ≤ size)
    {k v : Nat}
    (hk : ws[k]? = some v) (hv : v < 2 ^ 32) :
    readWord (placedAt address m) address size (address + 4 * k) = some v := by
  obtain ⟨hlt, rfl⟩ := List.getElem?_eq_some_iff.1 hk
  unfold readWord
  rw [if_pos (by omega)]
  unfold wordAt
  rw [readAt_placedAt]
  have hread := h.word hlt
  rw [Nat.mod_eq_of_lt hv] at hread
  exact congrArg some hread

theorem readString_eq {s : List UInt8} {m : ByteStore} {room p : Nat}
    (hbytes : readAt m p (s.length + 1) = s ++ [0]) (hzero : 0 ∉ s) (hroom : s.length < room) :
    readString m room p = some s := by
  induction s generalizing room p with
  | nil =>
    obtain ⟨room, rfl⟩ := Nat.exists_eq_add_one_of_ne_zero hroom.ne'
    rw [readString, if_pos (List.cons.inj hbytes).1]
  | cons ch s ih =>
    obtain ⟨room, rfl⟩ := Nat.exists_eq_add_one_of_ne_zero ((Nat.zero_le _).trans_lt hroom).ne'
    obtain ⟨hch, hrest⟩ := List.cons.inj hbytes
    rw [readString, if_neg fun h => hzero ((hch.symm.trans h) ▸ .head _), hch,
      ih hrest (fun hm => hzero (.tail _ hm)) (Nat.lt_of_succ_lt_succ hroom)]
    rfl

end Reading

theorem pack_drop_take {i : Nat} (h : i < strings.length) :
    ((pack strings).drop (pack (strings.take i)).length).take (strings[i].length + 1) =
      strings[i] ++ [0] := by
  have hsplit : pack strings = pack (strings.take i) ++
      (strings[i] ++ [0] ++ pack (strings.drop (i + 1))) := by
    conv_lhs => rw [← List.take_append_drop i strings, pack_append, List.drop_eq_getElem_cons h]
    rfl
  rw [hsplit, List.drop_left, List.take_left' (by rw [List.length_append, List.length_singleton])]

theorem pack_take_length {i : Nat} (h : i < strings.length) :
    (pack (strings.take i)).length + strings[i].length + 1 ≤ (pack strings).length := by
  have hwindow := congrArg List.length (pack_drop_take h)
  rw [List.length_take, List.length_drop, List.length_append, List.length_singleton] at hwindow
  omega

theorem readText_eq {address size : Nat} {m : ByteStore} {ws : List Nat}
    (h : HasPrefix m (wordBytes ws ++ pack strings))
    (hsize : 4 * ws.length + (pack strings).length ≤ size) {i : Nat} (hi : i < strings.length)
    (hzero : 0 ∉ strings[i]) : readText (placedAt address m) address size
      (address + (4 * ws.length + (pack (strings.take i)).length)) = some strings[i] := by
  have hroom := pack_take_length hi
  unfold readText
  rw [if_pos (by omega)]
  refine readString_eq ?_ hzero (by omega)
  rw [readAt_placedAt, h.readAt (by rw [List.length_append, wordBytes_length]; omega),
    ← List.drop_drop, List.drop_left' (wordBytes_length ws), pack_drop_take hi]

theorem mapM_eq_some {α β : Type} {f : α → Option β} {g : α → β} {l : List α}
    (h : ∀ a ∈ l, f a = some (g a)) : l.mapM f = some (l.map g) := by
  induction l with
  | nil => rfl
  | cons a l ih =>
    rw [List.mapM_cons, h a (.head _), ih fun b hb => h b (.tail _ hb)]
    rfl

theorem stackWords_places (address startupEvent : Nat) (offsets : List Nat) :
    let ws := stackWords address startupEvent offsets
    ws.length = 16 + offsets.length + 2 ∧ ws[1]? = some (address + 16) ∧
    (ws.drop 4).take 12 = [48, 1, offsets.length, argvAddress address,
      argvAddress address + (offsets.length + 1) * 4, 0, 0, 0, 0, 0, 0, 0] ∧
    (∀ i v, offsets[i]? = some v →
      ws[16 + i]? = some (argvAddress address + (offsets.length + 1) * 4 + 4 + v)) ∧
    ws[16 + offsets.length]? = some 0 ∧ ws[16 + offsets.length + 1]? = some 0 := by
  unfold stackWords
  dsimp only
  set front : List Nat := [0, address + 16, startupEvent, 0, 48, 1, offsets.length,
    argvAddress address,
    argvAddress address + (offsets.length + 1) * 4, 0, 0, 0, 0, 0, 0, 0]
  set pointers := offsets.map (argvAddress address + (offsets.length + 1) * 4 + 4 +
    ·) with hpointers
  have hfront : front.length = 16 := rfl
  have hlen : pointers.length = offsets.length := List.length_map _
  have hboth : (front ++ pointers).length = 16 + offsets.length := by
    rw [List.length_append, hfront, hlen]
  refine ⟨?_, ?_, ?_, fun i v hv => ?_, ?_, ?_⟩
  · rw [List.length_append, hboth]
    rfl
  · rfl
  · rfl
  · obtain ⟨hi, -⟩ := List.getElem?_eq_some_iff.1 hv
    rw [List.getElem?_append_left (by omega), List.getElem?_append_right (by omega), hfront,
      Nat.add_sub_cancel_left, List.getElem?_map, hv]
    rfl
  · rw [List.getElem?_append_right (by omega), hboth, Nat.sub_self]
    rfl
  · rw [List.getElem?_append_right (by omega), hboth, Nat.add_sub_cancel_left]
    rfl

/-- The reader finds the packed strings on the stack. -/
theorem readStartup_eq {address startupEvent size : Nat} {m : ByteStore} {args : Arguments}
    (hpacked : Packed args strings)
    (hargc : args.argc ≤ maxArguments ∧ args.argc ≠ 0) (hsize : size = stackSize args)
    (hspace : address + size < 2 ^ 32) (hzero : ∀ s ∈ strings, 0 ∉ s)
    (hm : HasPrefix m (wordBytes (stackWords address startupEvent
      ((List.range args.argc).map args.offsets)) ++ pack strings)) :
    readStartup (placedAt address m) address size = some strings := by
  obtain ⟨hlen, hinfo, hfields, hpointers, hnull, hnull'⟩ :=
    stackWords_places address startupEvent ((List.range args.argc).map args.offsets)
  set ws := stackWords address startupEvent ((List.range args.argc).map args.offsets)
  rw [List.length_map, List.length_range] at hlen hfields hnull hnull' hpointers
  have hroom : 4 * ws.length + (pack strings).length ≤ size := by
    rw [← hpacked.bytes, hsize]
    unfold stackSize infoSize
    omega
  have hargv : argvAddress address = address + 4 * 16 := rfl
  unfold maxArguments at hargc
  -- The startup information.
  have hstart : readWord (placedAt address m) address size (address + 4) = some (address + 16) :=
    readWord_eq hm (by omega) (k := 1) hinfo (by omega)
  have hwords : (List.range 12).mapM (fun i =>
      readWord (placedAt address m) address size (address + 16 + 4 * i)) =
      some ((List.range 12).map fun i => ((ws.drop 4).take 12).getD i 0) := by
    refine mapM_eq_some fun i hi => ?_
    have hi' : i < 12 := List.mem_range.1 hi
    have hplace : address + 16 + 4 * i = address + 4 * (4 + i) := by omega
    have hget : ws[4 + i]? = ((ws.drop 4).take 12)[i]? := by
      rw [List.getElem?_take_of_lt hi', List.getElem?_drop]
    have hlt : i < ((ws.drop 4).take 12).length := by rw [hfields]; exact hi'
    rw [hplace]
    apply readWord_eq hm (by omega)
    · rw [hget, List.getD_eq_getElem?_getD, List.getElem?_eq_getElem hlt]
      rfl
    · have hall : ∀ v ∈ (ws.drop 4).take 12, v < 2 ^ 32 := by
        rw [hfields]
        simp only [List.forall_mem_cons]
        refine ⟨by decide, by decide, by omega, by omega, by omega, by decide, by decide, by decide,
          by decide, by decide, by decide, by decide, fun v hv => nomatch hv⟩
      rw [List.getD_eq_getElem?_getD, List.getElem?_eq_getElem hlt]
      exact hall _ (List.getElem_mem hlt)
  rw [hfields] at hwords
  set info : List Nat := [48, 1, args.argc, argvAddress address,
    argvAddress address + (args.argc + 1) * 4, 0, 0, 0, 0, 0, 0, 0] with hinfoWords
  have hlist : (List.range 12).map (fun i => info.getD i 0) = info := rfl
  rw [hlist] at hwords
  -- The two tables of pointers.
  have htable : (List.range args.argc).mapM (fun i =>
      readWord (placedAt address m) address size (argvAddress address + 4 * i)) =
      some ((List.range args.argc).map fun i => address + (4 * ws.length + args.offsets i)) := by
    refine mapM_eq_some fun i hi => ?_
    have hi' : i < args.argc := List.mem_range.1 hi
    have hplace : argvAddress address + 4 * i = address + 4 * (16 + i) := by rw [hargv]; omega
    have hpointer := hpointers i (args.offsets i) (by
      rw [List.getElem?_map, List.getElem?_range hi']
      rfl)
    have hoffset := hpacked.offsets i (hpacked.argc ▸ hi')
    have hstring := pack_take_length (hpacked.argc.symm ▸ hi' : i < strings.length)
    have hvalue : argvAddress address + (args.argc + 1) * 4 + 4 + args.offsets i =
        address + (4 * ws.length + args.offsets i) := by rw [hargv]; omega
    rw [hvalue] at hpointer
    rw [hplace]
    exact readWord_eq hm (by omega) hpointer (by omega)
  have hend : readWord (placedAt address m) address size (argvAddress address + 4 * args.argc) =
      some 0 := by
    have hplace : argvAddress address + 4 * args.argc = address + 4 * (16 + args.argc) := by
      rw [hargv]; omega
    rw [hplace]
    exact readWord_eq hm (by omega) hnull (by decide)
  have hend' : readWord (placedAt address m) address size
      (argvAddress address + (args.argc + 1) * 4) =
      some 0 := by
    have hplace : argvAddress address + (args.argc + 1) * 4 =
        address + 4 * (16 + args.argc + 1) := by
      rw [hargv]; omega
    rw [hplace]
    exact readWord_eq hm (by omega) hnull' (by decide)
  have htexts : ((List.range args.argc).map
      fun i => address + (4 * ws.length + args.offsets i)).mapM
      (fun p => readText (placedAt address m) address size p) = some strings := by
    rw [List.mapM_map]
    have hindex : strings = (List.range args.argc).map fun i => strings.getD i [] := by
      apply List.ext_getElem
      · rw [List.length_map, List.length_range, hpacked.argc]
      · intro i hi _
        rw [List.getElem_map, List.getElem_range, List.getD_eq_getElem?_getD,
          List.getElem?_eq_getElem hi]
        rfl
    conv_rhs => rw [hindex]
    refine mapM_eq_some fun i hi => ?_
    have hi' : i < strings.length := hpacked.argc ▸ List.mem_range.1 hi
    rw [Function.comp_apply, hpacked.offsets i hi', List.getD_eq_getElem?_getD,
      List.getElem?_eq_getElem hi']
    exact readText_eq hm hroom hi' (hzero _ (List.getElem_mem hi'))
  have hvalid : validStartup info = true := by
    have hargvPos : argvAddress address ≠ 0 := by rw [hargv]; omega
    simp [validStartup, hinfoWords, infoSize, abiVersion, hargc.1, hargc.2, hargvPos]
  have hargcField : info.getD 2 0 = args.argc := rfl
  have hargvField : info.getD 3 0 = argvAddress address := rfl
  have henvpField : info.getD 4 0 = argvAddress address + (args.argc + 1) * 4 := rfl
  unfold readStartup
  simp only [hstart, hwords, hvalid, hargcField, hargvField, henvpField, htable, hend,
    hend', htexts,
    Option.bind_eq_bind, Option.bind_some, guard_true]
  rfl

/-! ## The whole way -/

/-- **Arguments survive the start of a process.**  `parse` stays in its arrays and succeeds just
when the path and the command are acceptable.  Then the command splits in one way, and if
`write_stack` succeeds, an application that follows the pointers on its stack finds the path and
these arguments, in the `stack_size` bytes that belong to it. -/
theorem arguments_survive (path command : List UInt8) (out : Arguments) :
    (parse path command out).1 ≠ .stuck ∧
    ((∃ args, parse path command out = (.ok (), args)) ↔ Acceptable path command) ∧
    ∀ args, parse path command out = (.ok (), args) →
      ∃ strings, (∀ split, Splits command split ↔ split = strings) ∧
        ∀ capacity address startupEvent m m',
          writeStack capacity address args startupEvent m = (.ok (), m') →
            readStartup (placedAt address m') address (stackSize args) =
              some (path :: strings) := by
  have hends := parse_ends path command out
  refine ⟨fun hstuck => ?_, ⟨?_, fun haccept => ?_⟩, fun args hrun => ?_⟩
  · rcases hrun : parse path command out with ⟨o, out'⟩
    rw [hrun] at hstuck
    subst hstuck
    rw [Ends, hrun] at hends
    exact hends
  · rintro ⟨args, hrun⟩
    exact (hends.of_ok hrun).1
  · obtain ⟨args, hrun, -⟩ := parse_ok haccept out
    exact ⟨args, hrun⟩
  · obtain ⟨haccept, strings, hsplits, hpacked⟩ := hends.of_ok hrun
    refine ⟨strings, fun split => ⟨fun h => h.unique hsplits, fun h => h ▸ hsplits⟩, ?_⟩
    intro capacity address startupEvent m m' hwrite
    obtain ⟨hargc, hspace, hprefix⟩ := (writeStack_ends hpacked m).of_ok hwrite
    refine readStartup_eq hpacked hargc rfl hspace (fun s hs => ?_) hprefix
    rcases List.mem_cons.1 hs with rfl | hs
    · exact haccept.pathOk.2.2
    · exact hsplits.zero_notMem_arg s hs

/-- Two arguments, one of them quoted. -/
def quotedCommand : List UInt8 := [97, 32, quote, 98, 32, 99, quote]

/-- They are parsed, written and found again. -/
theorem arguments_survive_quoted : ∃ args m', parse [47, 112] quotedCommand {} = (.ok (), args) ∧
    writeStack 256 0x1000 args 7 (fun _ => 0) = (.ok (), m') ∧
    readStartup (placedAt 0x1000 m') 0x1000 (stackSize args) =
      some [[47, 112], [97], [98, 32, 99]] ∧
    ∀ split, Splits quotedCommand split ↔ split = [[97], [98, 32, 99]] := by
  have hparse : (parse [47, 112] quotedCommand {}).1 = .ok () := by decide +kernel
  obtain ⟨-, -, hfound⟩ := arguments_survive [47, 112] quotedCommand {}
  generalize hargs : (parse [47, 112] quotedCommand {}).2 = args at *
  have hrun : parse [47, 112] quotedCommand {} = (.ok (), args) := Prod.ext hparse hargs
  have hwrite : (writeStack 256 0x1000 args 7 (fun _ => 0)).1 = .ok () := by
    rw [← hargs]
    decide +kernel
  have hread : readStartup (placedAt 0x1000 (writeStack 256 0x1000 args 7 fun _ => 0).2) 0x1000
      (stackSize args) = some [[47, 112], [97], [98, 32, 99]] := by
    rw [← hargs]
    decide +kernel
  obtain ⟨strings, hsplits, hstack⟩ := hfound args hrun
  have hstrings := (hstack 256 0x1000 7 _ _ (Prod.ext hwrite rfl)).symm.trans hread
  obtain rfl : strings = [[97], [98, 32, 99]] := (List.cons.inj (Option.some.inj hstrings)).2
  exact ⟨args, _, hrun, Prod.ext hwrite rfl, hread, hsplits⟩

end UnDOS.Startup
