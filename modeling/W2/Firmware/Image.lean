import W2.Mips.Exec

/-!
# The miniboot image

The machine words of the routines of `miniboot.s` that the console uses, in address order,
with the strings and the jump table it reads. Each listing states what the words at a
routine's addresses decode to, in the order of the disassembly.
-/

namespace W2.Miniboot

open Mips

def putchar : List Word :=
  [0x308400ff, 0x3c021f80, 0x34430001, 0x8c620000, 0x00000000, 0x30420001,
   0x1440fffc, 0x3c021f80, 0x34420002, 0xa0440000, 0x03e00008, 0x00000000]

def readData : List Word :=
  [0x3c021f80, 0x8c420000, 0x03e00008, 0x304200ff]

def sendByte : List Word :=
  [0x27bdffe8, 0xafbf0010, 0x0c0000cc, 0x308400ff, 0x00001021, 0x8fbf0010,
   0x00000000, 0x03e00008, 0x27bd0018]

def puts : List Word :=
  [0x27bdffe0, 0xafbf0018, 0xafb10014, 0xafb00010, 0x80820000, 0x00000000,
   0x1040000d, 0x00808021, 0x2411000a, 0x14510003, 0x00000000, 0x0c0000dc,
   0x2404000d, 0x92040000, 0x0c0000dc, 0x26100001, 0x82020000, 0x00000000,
   0x1440fff6, 0x00000000, 0x00001021, 0x8fbf0018, 0x8fb10014, 0x8fb00010,
   0x03e00008, 0x27bd0020]

def formatHex : List Word :=
  [0x3c020100, 0xa0400018, 0x3c020100, 0x24450017, 0x3c020100, 0x2446000f,
   0x3083000f, 0x2862000a, 0x14400002, 0x24020030, 0x24020037, 0x00431021,
   0xa0a20000, 0x24a5ffff, 0x14a6fff7, 0x00042102, 0x3c020100, 0x03e00008,
   0x24420010]

def rxReady : List Word :=
  [0x3c021f80, 0x34420005, 0x8c420000, 0x03e00008, 0x30420001]

def getchar : List Word :=
  [0x27bdffe8, 0xafbf0010, 0x0c000112, 0x00000000, 0x1040fffd, 0x00000000,
   0x0c0000d8, 0x00000000, 0x8fbf0010, 0x00000000, 0x03e00008, 0x27bd0018]

def getword : List Word :=
  [0x27bdffd0, 0xafbf0028, 0xafb50024, 0xafb40020, 0xafb3001c, 0xafb20018,
   0xafb10014, 0xafb00010, 0x00008021, 0x00008821, 0x2414000d, 0x2413000a,
   0x24120020, 0x24150008, 0x0c000117, 0x00000000, 0x10540024, 0x00401821,
   0x10530022, 0x00000000, 0x10520020, 0x2442ffd0, 0x304400ff, 0x2c82000a,
   0x14400015, 0x2462ffbf, 0x304200ff, 0x2c42001a, 0x10400004, 0x2462ff9f,
   0x2462ffc9, 0x08000152, 0x304300ff, 0x304200ff, 0x2c42001a, 0x10400003,
   0x2462ffa9, 0x08000152, 0x304300ff, 0x14750008, 0x00111100, 0x1a000002,
   0x00000000, 0x2610ffff, 0x08000155, 0x00118902, 0x00801821, 0x00111100,
   0x00438821, 0x26100001, 0x2a020010, 0x1440ffda, 0x00000000, 0x02201021,
   0x8fbf0028, 0x8fb50024, 0x8fb40020, 0x8fb3001c, 0x8fb20018, 0x8fb10014,
   0x8fb00010, 0x03e00008, 0x27bd0030]

def commandS : List Word :=
  [0x27bdffe0, 0xafbf001c, 0xafb20018, 0xafb10014, 0x0c000123, 0xafb00010,
   0x0c000123, 0x00408021, 0x0c000123, 0x00408821, 0x00409021, 0x8e020000,
   0x12400008, 0x02228021, 0x00008821, 0x0c000123, 0x00000000, 0xae020000,
   0x26310001, 0x1651fffb, 0x26100004, 0x0c0000cc, 0x24040006, 0x8fbf001c,
   0x8fb20018, 0x8fb10014, 0x8fb00010, 0x03e00008, 0x27bd0020]

def commandW : List Word :=
  [0x27bdffe0, 0xafbf001c, 0xafb20018, 0xafb10014, 0x0c000123, 0xafb00010,
   0x0c000123, 0x00408021, 0x10400008, 0x00409021, 0x00008821, 0x0c000123,
   0x00000000, 0xae020000, 0x26310001, 0x1651fffb, 0x26100004, 0x0c0000cc,
   0x24040006, 0x8fbf001c, 0x8fb20018, 0x8fb10014, 0x8fb00010, 0x03e00008,
   0x27bd0020]

def commandL : List Word :=
  [0x27bdffd8, 0xafbf0020, 0xafb3001c, 0xafb20018, 0xafb10014, 0x0c000123,
   0xafb00010, 0x0c000123, 0x00408021, 0x0c000123, 0x00408821, 0x00409021,
   0x8e100000, 0x0c0000cc, 0x24040002, 0x1240000d, 0x02308021, 0x00008821,
   0x3c131000, 0x8e040000, 0x0c0000ff, 0x26100004, 0x0c0000e5, 0x00402021,
   0x0c0000e5, 0x26641770, 0x26310001, 0x1651fff7, 0x00000000, 0x0c0000cc,
   0x24040003, 0x8fbf0020, 0x8fb3001c, 0x8fb20018, 0x8fb10014, 0x8fb00010,
   0x03e00008, 0x27bd0028]

def commandR : List Word :=
  [0x27bdffd8, 0xafbf0020, 0xafb3001c, 0xafb20018, 0xafb10014, 0x0c000123,
   0xafb00010, 0x0c000123, 0x00408021, 0x00409021, 0x0c0000cc, 0x24040002,
   0x1240000c, 0x00008821, 0x3c131000, 0x8e040000, 0x0c0000ff, 0x26100004,
   0x0c0000e5, 0x00402021, 0x0c0000e5, 0x26641770, 0x26310001, 0x1651fff7,
   0x00000000, 0x0c0000cc, 0x24040003, 0x8fbf0020, 0x8fb3001c, 0x8fb20018,
   0x8fb10014, 0x8fb00010, 0x03e00008, 0x27bd0028]

def console : List Word :=
  [0x0c000117, 0x00000000, 0x2442ffae, 0x304300ff, 0x2c620026, 0x1040fffa,
   0x00031080, 0x3c031000, 0x24631928, 0x00431021, 0x8c420000, 0x00000000,
   0x00400008, 0x00000000, 0x0c0001b5, 0x00000000, 0x080003ed, 0x00000000,
   0x0c000221, 0x00000000, 0x080003ed, 0x00000000, 0x0c0001f4, 0x00000000,
   0x080003ed, 0x00000000, 0x0c000198, 0x00000000, 0x080003ed, 0x00000000,
   0x0c0001ce, 0x00000000, 0x080003ed, 0x00000000, 0x0c00018b, 0x00000000,
   0x080003ed, 0x00000000, 0x0c0003d3, 0x00002021, 0x080003ed, 0x00000000,
   0x0c000336, 0x00002021, 0x080003ed, 0x00000000]

def blank : List Word :=
  [0x00000020]

def commandTable : List Word :=
  [0x1000100c, 0x10000fb4, 0x10000fb4, 0x10000fb4, 0x10000fb4, 0x10000fb4,
   0x10000fb4, 0x10000fb4, 0x10000fb4, 0x10000fb4, 0x10000fb4, 0x10000fb4,
   0x10000fb4, 0x10000fb4, 0x10000fb4, 0x10000fb4, 0x10000fb4, 0x10000fb4,
   0x1000105c, 0x10000fb4, 0x10000fb4, 0x10000fb4, 0x10000fb4, 0x1000104c,
   0x1000103c, 0x10000fb4, 0x1000102c, 0x10000fb4, 0x10000fb4, 0x10000fb4,
   0x10000fb4, 0x10000fb4, 0x10000ffc, 0x1000101c, 0x10000fb4, 0x10000fb4,
   0x10000fb4, 0x10000fec]

def segments : List (ℕ × List Word) :=
  [(0x10000330, putchar),
   (0x10000360, readData),
   (0x10000370, sendByte),
   (0x10000394, puts),
   (0x100003fc, formatHex),
   (0x10000448, rxReady),
   (0x1000045c, getchar),
   (0x1000048c, getword),
   (0x10000660, commandS),
   (0x100006d4, commandW),
   (0x10000738, commandL),
   (0x10000884, commandR),
   (0x10000fb4, console),
   (0x10001770, blank),
   (0x10001928, commandTable)]

def codeOf (pieces : List (ℕ × List Word)) (a : Addr) : Option Word :=
  pieces.findSome? fun s =>
    if s.1 ≤ a.toNat ∧ a.toNat % 4 = 0 then s.2[(a.toNat - s.1) / 4]? else none

def code (a : Addr) : Option Word := codeOf segments a

variable {δ : Type} {P P' : Platform δ}

/-- The read-only memory of the platform holds the words of an image. -/
structure Rom (P : Platform δ) (image : Addr → Option Word) : Prop where
  code : ∀ a w, image a = some w → P.code a = some w
  device : ∀ a w, image (alignAddr a) = some w → P.device a = false

abbrev Holds (P : Platform δ) : Prop := Rom P code

abbrev Pieces (P : Platform δ) (pieces : List (ℕ × List Word)) : Prop := Rom P (codeOf pieces)

section Rom

variable {image image' : Addr → Option Word}

theorem Rom.fetch (h : Rom P image) {a : Addr} {i : Instr}
    (hi : (image a).bind decode = some i) : P.fetch a = some i := by
  obtain ⟨w, hw, hd⟩ := Option.bind_eq_some_iff.mp hi
  rw [Platform.fetch, h.code a w hw]
  exact hd

theorem Rom.congr (h : Rom P image) (hcode : P'.code = P.code) (hdevice : P'.device = P.device) :
    Rom P' image :=
  ⟨fun a w hw => hcode ▸ h.code a w hw, fun a w hw => hdevice ▸ h.device a w hw⟩

theorem Rom.mono (h : Rom P image) (hsub : ∀ a w, image' a = some w → image a = some w) :
    Rom P image' :=
  ⟨fun a w hw => h.code a w (hsub a w hw), fun a w hw => h.device a w (hsub _ w hw)⟩

theorem Rom.or (h : Rom P image) (h' : Rom P image') : Rom P fun a => (image a).or (image' a) where
  code a w hw := by
    rcases Option.or_eq_some_iff.mp hw with hfirst | ⟨-, hsecond⟩
    · exact h.code a w hfirst
    · exact h'.code a w hsecond
  device a w hw := by
    rcases Option.or_eq_some_iff.mp hw with hfirst | ⟨-, hsecond⟩
    · exact h.device a w hfirst
    · exact h'.device a w hsecond

end Rom

theorem sendByte_listing (h : Holds P) :
    P.fetch 0x10000370#32 = some (.addiu .sp .sp (-24)) ∧
    P.fetch 0x10000374#32 = some (.sw .ra 16 .sp) ∧
    P.fetch 0x10000378#32 = some (.jal 0xcc) ∧
    P.fetch 0x1000037c#32 = some (.andi .a0 .a0 0xff) ∧
    P.fetch 0x10000380#32 = some (.addu .v0 .zero .zero) ∧
    P.fetch 0x10000384#32 = some (.lw .ra 16 .sp) ∧
    P.fetch 0x10000388#32 = some .nop ∧
    P.fetch 0x1000038c#32 = some (.jr .ra) ∧
    P.fetch 0x10000390#32 = some (.addiu .sp .sp 24) := by
  constructorm* _ ∧ _ <;> exact h.fetch rfl

theorem puts_listing (h : Holds P) :
    P.fetch 0x10000394#32 = some (.addiu .sp .sp (-32)) ∧
    P.fetch 0x10000398#32 = some (.sw .ra 24 .sp) ∧
    P.fetch 0x1000039c#32 = some (.sw .s1 20 .sp) ∧
    P.fetch 0x100003a0#32 = some (.sw .s0 16 .sp) ∧
    P.fetch 0x100003a4#32 = some (.lb .v0 0 .a0) ∧
    P.fetch 0x100003a8#32 = some .nop ∧
    P.fetch 0x100003ac#32 = some (.beq .v0 .zero 13) ∧
    P.fetch 0x100003b0#32 = some (.addu .s0 .a0 .zero) ∧
    P.fetch 0x100003b4#32 = some (.addiu .s1 .zero 10) ∧
    P.fetch 0x100003b8#32 = some (.bne .v0 .s1 3) ∧
    P.fetch 0x100003bc#32 = some .nop ∧
    P.fetch 0x100003c0#32 = some (.jal 0xdc) ∧
    P.fetch 0x100003c4#32 = some (.addiu .a0 .zero 13) ∧
    P.fetch 0x100003c8#32 = some (.lbu .a0 0 .s0) ∧
    P.fetch 0x100003cc#32 = some (.jal 0xdc) ∧
    P.fetch 0x100003d0#32 = some (.addiu .s0 .s0 1) ∧
    P.fetch 0x100003d4#32 = some (.lb .v0 0 .s0) ∧
    P.fetch 0x100003d8#32 = some .nop ∧
    P.fetch 0x100003dc#32 = some (.bne .v0 .zero (-10)) ∧
    P.fetch 0x100003e0#32 = some .nop ∧
    P.fetch 0x100003e4#32 = some (.addu .v0 .zero .zero) ∧
    P.fetch 0x100003e8#32 = some (.lw .ra 24 .sp) ∧
    P.fetch 0x100003ec#32 = some (.lw .s1 20 .sp) ∧
    P.fetch 0x100003f0#32 = some (.lw .s0 16 .sp) ∧
    P.fetch 0x100003f4#32 = some (.jr .ra) ∧
    P.fetch 0x100003f8#32 = some (.addiu .sp .sp 32) := by
  constructorm* _ ∧ _ <;> exact h.fetch rfl

theorem formatHex_listing (h : Holds P) :
    P.fetch 0x100003fc#32 = some (.lui .v0 0x100) ∧
    P.fetch 0x10000400#32 = some (.sb .zero 24 .v0) ∧
    P.fetch 0x10000404#32 = some (.lui .v0 0x100) ∧
    P.fetch 0x10000408#32 = some (.addiu .a1 .v0 23) ∧
    P.fetch 0x1000040c#32 = some (.lui .v0 0x100) ∧
    P.fetch 0x10000410#32 = some (.addiu .a2 .v0 15) ∧
    P.fetch 0x10000414#32 = some (.andi .v1 .a0 0xf) ∧
    P.fetch 0x10000418#32 = some (.slti .v0 .v1 10) ∧
    P.fetch 0x1000041c#32 = some (.bne .v0 .zero 2) ∧
    P.fetch 0x10000420#32 = some (.addiu .v0 .zero 48) ∧
    P.fetch 0x10000424#32 = some (.addiu .v0 .zero 55) ∧
    P.fetch 0x10000428#32 = some (.addu .v0 .v0 .v1) ∧
    P.fetch 0x1000042c#32 = some (.sb .v0 0 .a1) ∧
    P.fetch 0x10000430#32 = some (.addiu .a1 .a1 (-1)) ∧
    P.fetch 0x10000434#32 = some (.bne .a1 .a2 (-9)) ∧
    P.fetch 0x10000438#32 = some (.srl .a0 .a0 4) ∧
    P.fetch 0x1000043c#32 = some (.lui .v0 0x100) ∧
    P.fetch 0x10000440#32 = some (.jr .ra) ∧
    P.fetch 0x10000444#32 = some (.addiu .v0 .v0 16) := by
  constructorm* _ ∧ _ <;> exact h.fetch rfl

theorem commandS_listing (h : Holds P) :
    P.fetch 0x10000660#32 = some (.addiu .sp .sp (-32)) ∧
    P.fetch 0x10000664#32 = some (.sw .ra 28 .sp) ∧
    P.fetch 0x10000668#32 = some (.sw .s2 24 .sp) ∧
    P.fetch 0x1000066c#32 = some (.sw .s1 20 .sp) ∧
    P.fetch 0x10000670#32 = some (.jal 0x123) ∧
    P.fetch 0x10000674#32 = some (.sw .s0 16 .sp) ∧
    P.fetch 0x10000678#32 = some (.jal 0x123) ∧
    P.fetch 0x1000067c#32 = some (.addu .s0 .v0 .zero) ∧
    P.fetch 0x10000680#32 = some (.jal 0x123) ∧
    P.fetch 0x10000684#32 = some (.addu .s1 .v0 .zero) ∧
    P.fetch 0x10000688#32 = some (.addu .s2 .v0 .zero) ∧
    P.fetch 0x1000068c#32 = some (.lw .v0 0 .s0) ∧
    P.fetch 0x10000690#32 = some (.beq .s2 .zero 8) ∧
    P.fetch 0x10000694#32 = some (.addu .s0 .s1 .v0) ∧
    P.fetch 0x10000698#32 = some (.addu .s1 .zero .zero) ∧
    P.fetch 0x1000069c#32 = some (.jal 0x123) ∧
    P.fetch 0x100006a0#32 = some .nop ∧
    P.fetch 0x100006a4#32 = some (.sw .v0 0 .s0) ∧
    P.fetch 0x100006a8#32 = some (.addiu .s1 .s1 1) ∧
    P.fetch 0x100006ac#32 = some (.bne .s2 .s1 (-5)) ∧
    P.fetch 0x100006b0#32 = some (.addiu .s0 .s0 4) ∧
    P.fetch 0x100006b4#32 = some (.jal 0xcc) ∧
    P.fetch 0x100006b8#32 = some (.addiu .a0 .zero 6) ∧
    P.fetch 0x100006bc#32 = some (.lw .ra 28 .sp) ∧
    P.fetch 0x100006c0#32 = some (.lw .s2 24 .sp) ∧
    P.fetch 0x100006c4#32 = some (.lw .s1 20 .sp) ∧
    P.fetch 0x100006c8#32 = some (.lw .s0 16 .sp) ∧
    P.fetch 0x100006cc#32 = some (.jr .ra) ∧
    P.fetch 0x100006d0#32 = some (.addiu .sp .sp 32) := by
  constructorm* _ ∧ _ <;> exact h.fetch rfl

theorem commandW_listing (h : Holds P) :
    P.fetch 0x100006d4#32 = some (.addiu .sp .sp (-32)) ∧
    P.fetch 0x100006d8#32 = some (.sw .ra 28 .sp) ∧
    P.fetch 0x100006dc#32 = some (.sw .s2 24 .sp) ∧
    P.fetch 0x100006e0#32 = some (.sw .s1 20 .sp) ∧
    P.fetch 0x100006e4#32 = some (.jal 0x123) ∧
    P.fetch 0x100006e8#32 = some (.sw .s0 16 .sp) ∧
    P.fetch 0x100006ec#32 = some (.jal 0x123) ∧
    P.fetch 0x100006f0#32 = some (.addu .s0 .v0 .zero) ∧
    P.fetch 0x100006f4#32 = some (.beq .v0 .zero 8) ∧
    P.fetch 0x100006f8#32 = some (.addu .s2 .v0 .zero) ∧
    P.fetch 0x100006fc#32 = some (.addu .s1 .zero .zero) ∧
    P.fetch 0x10000700#32 = some (.jal 0x123) ∧
    P.fetch 0x10000704#32 = some .nop ∧
    P.fetch 0x10000708#32 = some (.sw .v0 0 .s0) ∧
    P.fetch 0x1000070c#32 = some (.addiu .s1 .s1 1) ∧
    P.fetch 0x10000710#32 = some (.bne .s2 .s1 (-5)) ∧
    P.fetch 0x10000714#32 = some (.addiu .s0 .s0 4) ∧
    P.fetch 0x10000718#32 = some (.jal 0xcc) ∧
    P.fetch 0x1000071c#32 = some (.addiu .a0 .zero 6) ∧
    P.fetch 0x10000720#32 = some (.lw .ra 28 .sp) ∧
    P.fetch 0x10000724#32 = some (.lw .s2 24 .sp) ∧
    P.fetch 0x10000728#32 = some (.lw .s1 20 .sp) ∧
    P.fetch 0x1000072c#32 = some (.lw .s0 16 .sp) ∧
    P.fetch 0x10000730#32 = some (.jr .ra) ∧
    P.fetch 0x10000734#32 = some (.addiu .sp .sp 32) := by
  constructorm* _ ∧ _ <;> exact h.fetch rfl

theorem commandL_listing (h : Holds P) :
    P.fetch 0x10000738#32 = some (.addiu .sp .sp (-40)) ∧
    P.fetch 0x1000073c#32 = some (.sw .ra 32 .sp) ∧
    P.fetch 0x10000740#32 = some (.sw .s3 28 .sp) ∧
    P.fetch 0x10000744#32 = some (.sw .s2 24 .sp) ∧
    P.fetch 0x10000748#32 = some (.sw .s1 20 .sp) ∧
    P.fetch 0x1000074c#32 = some (.jal 0x123) ∧
    P.fetch 0x10000750#32 = some (.sw .s0 16 .sp) ∧
    P.fetch 0x10000754#32 = some (.jal 0x123) ∧
    P.fetch 0x10000758#32 = some (.addu .s0 .v0 .zero) ∧
    P.fetch 0x1000075c#32 = some (.jal 0x123) ∧
    P.fetch 0x10000760#32 = some (.addu .s1 .v0 .zero) ∧
    P.fetch 0x10000764#32 = some (.addu .s2 .v0 .zero) ∧
    P.fetch 0x10000768#32 = some (.lw .s0 0 .s0) ∧
    P.fetch 0x1000076c#32 = some (.jal 0xcc) ∧
    P.fetch 0x10000770#32 = some (.addiu .a0 .zero 2) ∧
    P.fetch 0x10000774#32 = some (.beq .s2 .zero 13) ∧
    P.fetch 0x10000778#32 = some (.addu .s0 .s1 .s0) ∧
    P.fetch 0x1000077c#32 = some (.addu .s1 .zero .zero) ∧
    P.fetch 0x10000780#32 = some (.lui .s3 0x1000) ∧
    P.fetch 0x10000784#32 = some (.lw .a0 0 .s0) ∧
    P.fetch 0x10000788#32 = some (.jal 0xff) ∧
    P.fetch 0x1000078c#32 = some (.addiu .s0 .s0 4) ∧
    P.fetch 0x10000790#32 = some (.jal 0xe5) ∧
    P.fetch 0x10000794#32 = some (.addu .a0 .v0 .zero) ∧
    P.fetch 0x10000798#32 = some (.jal 0xe5) ∧
    P.fetch 0x1000079c#32 = some (.addiu .a0 .s3 6000) ∧
    P.fetch 0x100007a0#32 = some (.addiu .s1 .s1 1) ∧
    P.fetch 0x100007a4#32 = some (.bne .s2 .s1 (-9)) ∧
    P.fetch 0x100007a8#32 = some .nop ∧
    P.fetch 0x100007ac#32 = some (.jal 0xcc) ∧
    P.fetch 0x100007b0#32 = some (.addiu .a0 .zero 3) ∧
    P.fetch 0x100007b4#32 = some (.lw .ra 32 .sp) ∧
    P.fetch 0x100007b8#32 = some (.lw .s3 28 .sp) ∧
    P.fetch 0x100007bc#32 = some (.lw .s2 24 .sp) ∧
    P.fetch 0x100007c0#32 = some (.lw .s1 20 .sp) ∧
    P.fetch 0x100007c4#32 = some (.lw .s0 16 .sp) ∧
    P.fetch 0x100007c8#32 = some (.jr .ra) ∧
    P.fetch 0x100007cc#32 = some (.addiu .sp .sp 40) := by
  constructorm* _ ∧ _ <;> exact h.fetch rfl

theorem commandR_listing (h : Holds P) :
    P.fetch 0x10000884#32 = some (.addiu .sp .sp (-40)) ∧
    P.fetch 0x10000888#32 = some (.sw .ra 32 .sp) ∧
    P.fetch 0x1000088c#32 = some (.sw .s3 28 .sp) ∧
    P.fetch 0x10000890#32 = some (.sw .s2 24 .sp) ∧
    P.fetch 0x10000894#32 = some (.sw .s1 20 .sp) ∧
    P.fetch 0x10000898#32 = some (.jal 0x123) ∧
    P.fetch 0x1000089c#32 = some (.sw .s0 16 .sp) ∧
    P.fetch 0x100008a0#32 = some (.jal 0x123) ∧
    P.fetch 0x100008a4#32 = some (.addu .s0 .v0 .zero) ∧
    P.fetch 0x100008a8#32 = some (.addu .s2 .v0 .zero) ∧
    P.fetch 0x100008ac#32 = some (.jal 0xcc) ∧
    P.fetch 0x100008b0#32 = some (.addiu .a0 .zero 2) ∧
    P.fetch 0x100008b4#32 = some (.beq .s2 .zero 12) ∧
    P.fetch 0x100008b8#32 = some (.addu .s1 .zero .zero) ∧
    P.fetch 0x100008bc#32 = some (.lui .s3 0x1000) ∧
    P.fetch 0x100008c0#32 = some (.lw .a0 0 .s0) ∧
    P.fetch 0x100008c4#32 = some (.jal 0xff) ∧
    P.fetch 0x100008c8#32 = some (.addiu .s0 .s0 4) ∧
    P.fetch 0x100008cc#32 = some (.jal 0xe5) ∧
    P.fetch 0x100008d0#32 = some (.addu .a0 .v0 .zero) ∧
    P.fetch 0x100008d4#32 = some (.jal 0xe5) ∧
    P.fetch 0x100008d8#32 = some (.addiu .a0 .s3 6000) ∧
    P.fetch 0x100008dc#32 = some (.addiu .s1 .s1 1) ∧
    P.fetch 0x100008e0#32 = some (.bne .s2 .s1 (-9)) ∧
    P.fetch 0x100008e4#32 = some .nop ∧
    P.fetch 0x100008e8#32 = some (.jal 0xcc) ∧
    P.fetch 0x100008ec#32 = some (.addiu .a0 .zero 3) ∧
    P.fetch 0x100008f0#32 = some (.lw .ra 32 .sp) ∧
    P.fetch 0x100008f4#32 = some (.lw .s3 28 .sp) ∧
    P.fetch 0x100008f8#32 = some (.lw .s2 24 .sp) ∧
    P.fetch 0x100008fc#32 = some (.lw .s1 20 .sp) ∧
    P.fetch 0x10000900#32 = some (.lw .s0 16 .sp) ∧
    P.fetch 0x10000904#32 = some (.jr .ra) ∧
    P.fetch 0x10000908#32 = some (.addiu .sp .sp 40) := by
  constructorm* _ ∧ _ <;> exact h.fetch rfl

theorem console_listing (h : Holds P) :
    P.fetch 0x10000fb4#32 = some (.jal 0x117) ∧
    P.fetch 0x10000fb8#32 = some .nop ∧
    P.fetch 0x10000fbc#32 = some (.addiu .v0 .v0 (-82)) ∧
    P.fetch 0x10000fc0#32 = some (.andi .v1 .v0 0xff) ∧
    P.fetch 0x10000fc4#32 = some (.sltiu .v0 .v1 38) ∧
    P.fetch 0x10000fc8#32 = some (.beq .v0 .zero (-6)) ∧
    P.fetch 0x10000fcc#32 = some (.sll .v0 .v1 2) ∧
    P.fetch 0x10000fd0#32 = some (.lui .v1 0x1000) ∧
    P.fetch 0x10000fd4#32 = some (.addiu .v1 .v1 6440) ∧
    P.fetch 0x10000fd8#32 = some (.addu .v0 .v0 .v1) ∧
    P.fetch 0x10000fdc#32 = some (.lw .v0 0 .v0) ∧
    P.fetch 0x10000fe0#32 = some .nop ∧
    P.fetch 0x10000fe4#32 = some (.jr .v0) ∧
    P.fetch 0x10000fe8#32 = some .nop ∧
    P.fetch 0x10000fec#32 = some (.jal 0x1b5) ∧
    P.fetch 0x10000ff0#32 = some .nop ∧
    P.fetch 0x10000ff4#32 = some (.j 0x3ed) ∧
    P.fetch 0x10000ff8#32 = some .nop ∧
    P.fetch 0x10000ffc#32 = some (.jal 0x221) ∧
    P.fetch 0x10001000#32 = some .nop ∧
    P.fetch 0x10001004#32 = some (.j 0x3ed) ∧
    P.fetch 0x10001008#32 = some .nop ∧
    P.fetch 0x1000100c#32 = some (.jal 0x1f4) ∧
    P.fetch 0x10001010#32 = some .nop ∧
    P.fetch 0x10001014#32 = some (.j 0x3ed) ∧
    P.fetch 0x10001018#32 = some .nop ∧
    P.fetch 0x1000101c#32 = some (.jal 0x198) ∧
    P.fetch 0x10001020#32 = some .nop ∧
    P.fetch 0x10001024#32 = some (.j 0x3ed) ∧
    P.fetch 0x10001028#32 = some .nop ∧
    P.fetch 0x1000102c#32 = some (.jal 0x1ce) ∧
    P.fetch 0x10001030#32 = some .nop ∧
    P.fetch 0x10001034#32 = some (.j 0x3ed) ∧
    P.fetch 0x10001038#32 = some .nop ∧
    P.fetch 0x1000103c#32 = some (.jal 0x18b) ∧
    P.fetch 0x10001040#32 = some .nop ∧
    P.fetch 0x10001044#32 = some (.j 0x3ed) ∧
    P.fetch 0x10001048#32 = some .nop ∧
    P.fetch 0x1000104c#32 = some (.jal 0x3d3) ∧
    P.fetch 0x10001050#32 = some (.addu .a0 .zero .zero) ∧
    P.fetch 0x10001054#32 = some (.j 0x3ed) ∧
    P.fetch 0x10001058#32 = some .nop ∧
    P.fetch 0x1000105c#32 = some (.jal 0x336) ∧
    P.fetch 0x10001060#32 = some (.addu .a0 .zero .zero) ∧
    P.fetch 0x10001064#32 = some (.j 0x3ed) ∧
    P.fetch 0x10001068#32 = some .nop := by
  constructorm* _ ∧ _ <;> exact h.fetch rfl

end W2.Miniboot
