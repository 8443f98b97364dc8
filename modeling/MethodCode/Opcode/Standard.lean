import MethodCode.Opcode.Definition

/-! The standard instruction set with the fast forms of the runtime, as definitions. -/

namespace MethodCode.OpcodeDefinition

/-- Constants: pushed as they are, or loaded from the pool. -/
def constants : List OpcodeDefinition :=
  [plain 0x00 "nop" "b" .void,
    plain 0x01 "aconst_null" "b" .object,
    plain 0x02 "iconst_m1" "b" .int,
    plain 0x03 "iconst_0" "b" .int,
    plain 0x04 "iconst_1" "b" .int,
    plain 0x05 "iconst_2" "b" .int,
    plain 0x06 "iconst_3" "b" .int,
    plain 0x07 "iconst_4" "b" .int,
    plain 0x08 "iconst_5" "b" .int,
    plain 0x09 "lconst_0" "b" .long,
    plain 0x0a "lconst_1" "b" .long,
    plain 0x0b "fconst_0" "b" .float,
    plain 0x0c "fconst_1" "b" .float,
    plain 0x0d "fconst_2" "b" .float,
    plain 0x0e "dconst_0" "b" .double,
    plain 0x0f "dconst_1" "b" .double,
    plain 0x10 "bipush" "bc" .int,
    plain 0x11 "sipush" "bcc" .int,
    (plain 0x12 "ldc" "bk" .illegal).trapping.rewritable,
    (plain 0x13 "ldc_w" "bkk" .illegal).trapping.rewritable,
    (plain 0x14 "ldc2_w" "bkk" .illegal).trapping]

/-- Loads from local variables and arrays. -/
def loads : List OpcodeDefinition :=
  [((plain 0x15 "iload" "bi" .int).widened "wbii").rewritable,
    (plain 0x16 "lload" "bi" .long).widened "wbii",
    (plain 0x17 "fload" "bi" .float).widened "wbii",
    (plain 0x18 "dload" "bi" .double).widened "wbii",
    (plain 0x19 "aload" "bi" .object).widened "wbii",
    plain 0x1a "iload_0" "b" .int,
    plain 0x1b "iload_1" "b" .int,
    plain 0x1c "iload_2" "b" .int,
    plain 0x1d "iload_3" "b" .int,
    plain 0x1e "lload_0" "b" .long,
    plain 0x1f "lload_1" "b" .long,
    plain 0x20 "lload_2" "b" .long,
    plain 0x21 "lload_3" "b" .long,
    plain 0x22 "fload_0" "b" .float,
    plain 0x23 "fload_1" "b" .float,
    plain 0x24 "fload_2" "b" .float,
    plain 0x25 "fload_3" "b" .float,
    plain 0x26 "dload_0" "b" .double,
    plain 0x27 "dload_1" "b" .double,
    plain 0x28 "dload_2" "b" .double,
    plain 0x29 "dload_3" "b" .double,
    (plain 0x2a "aload_0" "b" .object).rewritable,
    plain 0x2b "aload_1" "b" .object,
    plain 0x2c "aload_2" "b" .object,
    plain 0x2d "aload_3" "b" .object,
    (plain 0x2e "iaload" "b" .int).trapping,
    (plain 0x2f "laload" "b" .long).trapping,
    (plain 0x30 "faload" "b" .float).trapping,
    (plain 0x31 "daload" "b" .double).trapping,
    (plain 0x32 "aaload" "b" .object).trapping,
    (plain 0x33 "baload" "b" .int).trapping,
    (plain 0x34 "caload" "b" .char).trapping,
    (plain 0x35 "saload" "b" .short).trapping]

/-- Stores to local variables and arrays. -/
def stores : List OpcodeDefinition :=
  [(plain 0x36 "istore" "bi" .void).widened "wbii",
    (plain 0x37 "lstore" "bi" .void).widened "wbii",
    (plain 0x38 "fstore" "bi" .void).widened "wbii",
    (plain 0x39 "dstore" "bi" .void).widened "wbii",
    (plain 0x3a "astore" "bi" .void).widened "wbii",
    plain 0x3b "istore_0" "b" .void,
    plain 0x3c "istore_1" "b" .void,
    plain 0x3d "istore_2" "b" .void,
    plain 0x3e "istore_3" "b" .void,
    plain 0x3f "lstore_0" "b" .void,
    plain 0x40 "lstore_1" "b" .void,
    plain 0x41 "lstore_2" "b" .void,
    plain 0x42 "lstore_3" "b" .void,
    plain 0x43 "fstore_0" "b" .void,
    plain 0x44 "fstore_1" "b" .void,
    plain 0x45 "fstore_2" "b" .void,
    plain 0x46 "fstore_3" "b" .void,
    plain 0x47 "dstore_0" "b" .void,
    plain 0x48 "dstore_1" "b" .void,
    plain 0x49 "dstore_2" "b" .void,
    plain 0x4a "dstore_3" "b" .void,
    plain 0x4b "astore_0" "b" .void,
    plain 0x4c "astore_1" "b" .void,
    plain 0x4d "astore_2" "b" .void,
    plain 0x4e "astore_3" "b" .void,
    (plain 0x4f "iastore" "b" .void).trapping,
    (plain 0x50 "lastore" "b" .void).trapping,
    (plain 0x51 "fastore" "b" .void).trapping,
    (plain 0x52 "dastore" "b" .void).trapping,
    (plain 0x53 "aastore" "b" .void).trapping,
    (plain 0x54 "bastore" "b" .void).trapping,
    (plain 0x55 "castore" "b" .void).trapping,
    (plain 0x56 "sastore" "b" .void).trapping]

/-- Operations on the stack itself. -/
def stack : List OpcodeDefinition :=
  [plain 0x57 "pop" "b" .void,
    plain 0x58 "pop2" "b" .void,
    plain 0x59 "dup" "b" .void,
    plain 0x5a "dup_x1" "b" .void,
    plain 0x5b "dup_x2" "b" .void,
    plain 0x5c "dup2" "b" .void,
    plain 0x5d "dup2_x1" "b" .void,
    plain 0x5e "dup2_x2" "b" .void,
    plain 0x5f "swap" "b" .void]

/-- Arithmetic, conversions and comparisons. -/
def arithmetic : List OpcodeDefinition :=
  [plain 0x60 "iadd" "b" .int,
    plain 0x61 "ladd" "b" .long,
    plain 0x62 "fadd" "b" .float,
    plain 0x63 "dadd" "b" .double,
    plain 0x64 "isub" "b" .int,
    plain 0x65 "lsub" "b" .long,
    plain 0x66 "fsub" "b" .float,
    plain 0x67 "dsub" "b" .double,
    plain 0x68 "imul" "b" .int,
    plain 0x69 "lmul" "b" .long,
    plain 0x6a "fmul" "b" .float,
    plain 0x6b "dmul" "b" .double,
    (plain 0x6c "idiv" "b" .int).trapping,
    (plain 0x6d "ldiv" "b" .long).trapping,
    plain 0x6e "fdiv" "b" .float,
    plain 0x6f "ddiv" "b" .double,
    (plain 0x70 "irem" "b" .int).trapping,
    (plain 0x71 "lrem" "b" .long).trapping,
    plain 0x72 "frem" "b" .float,
    plain 0x73 "drem" "b" .double,
    plain 0x74 "ineg" "b" .int,
    plain 0x75 "lneg" "b" .long,
    plain 0x76 "fneg" "b" .float,
    plain 0x77 "dneg" "b" .double,
    plain 0x78 "ishl" "b" .int,
    plain 0x79 "lshl" "b" .long,
    plain 0x7a "ishr" "b" .int,
    plain 0x7b "lshr" "b" .long,
    plain 0x7c "iushr" "b" .int,
    plain 0x7d "lushr" "b" .long,
    plain 0x7e "iand" "b" .int,
    plain 0x7f "land" "b" .long,
    plain 0x80 "ior" "b" .int,
    plain 0x81 "lor" "b" .long,
    plain 0x82 "ixor" "b" .int,
    plain 0x83 "lxor" "b" .long,
    (plain 0x84 "iinc" "bic" .void).widened "wbiicc",
    plain 0x85 "i2l" "b" .long,
    plain 0x86 "i2f" "b" .float,
    plain 0x87 "i2d" "b" .double,
    plain 0x88 "l2i" "b" .int,
    plain 0x89 "l2f" "b" .float,
    plain 0x8a "l2d" "b" .double,
    plain 0x8b "f2i" "b" .int,
    plain 0x8c "f2l" "b" .long,
    plain 0x8d "f2d" "b" .double,
    plain 0x8e "d2i" "b" .int,
    plain 0x8f "d2l" "b" .long,
    plain 0x90 "d2f" "b" .float,
    plain 0x91 "i2b" "b" .byte,
    plain 0x92 "i2c" "b" .char,
    plain 0x93 "i2s" "b" .short,
    plain 0x94 "lcmp" "b" .int,
    plain 0x95 "fcmpl" "b" .int,
    plain 0x96 "fcmpg" "b" .int,
    plain 0x97 "dcmpl" "b" .int,
    plain 0x98 "dcmpg" "b" .int]

/-- Branches, switches and returns. -/
def control : List OpcodeDefinition :=
  [plain 0x99 "ifeq" "boo" .void,
    plain 0x9a "ifne" "boo" .void,
    plain 0x9b "iflt" "boo" .void,
    plain 0x9c "ifge" "boo" .void,
    plain 0x9d "ifgt" "boo" .void,
    plain 0x9e "ifle" "boo" .void,
    plain 0x9f "if_icmpeq" "boo" .void,
    plain 0xa0 "if_icmpne" "boo" .void,
    plain 0xa1 "if_icmplt" "boo" .void,
    plain 0xa2 "if_icmpge" "boo" .void,
    plain 0xa3 "if_icmpgt" "boo" .void,
    plain 0xa4 "if_icmple" "boo" .void,
    plain 0xa5 "if_acmpeq" "boo" .void,
    plain 0xa6 "if_acmpne" "boo" .void,
    plain 0xa7 "goto" "boo" .void,
    plain 0xa8 "jsr" "boo" .int,
    (plain 0xa9 "ret" "bi" .void).widened "wbii",
    plain 0xaa "tableswitch" "" .void,
    (plain 0xab "lookupswitch" "" .void).rewritable,
    (plain 0xac "ireturn" "b" .int).trapping,
    (plain 0xad "lreturn" "b" .long).trapping,
    (plain 0xae "freturn" "b" .float).trapping,
    (plain 0xaf "dreturn" "b" .double).trapping,
    (plain 0xb0 "areturn" "b" .object).trapping,
    (plain 0xb1 "return" "b" .void).trapping.rewritable]

/-- Members, objects and monitors. -/
def references : List OpcodeDefinition :=
  [(plain 0xb2 "getstatic" "bJJ" .illegal).trapping.rewritable,
    (plain 0xb3 "putstatic" "bJJ" .illegal).trapping.rewritable,
    (plain 0xb4 "getfield" "bJJ" .illegal).trapping.rewritable,
    (plain 0xb5 "putfield" "bJJ" .illegal).trapping.rewritable,
    (plain 0xb6 "invokevirtual" "bJJ" .illegal).trapping.rewritable,
    (plain 0xb7 "invokespecial" "bJJ" .illegal).trapping.rewritable,
    (plain 0xb8 "invokestatic" "bJJ" .illegal).trapping.rewritable,
    (plain 0xb9 "invokeinterface" "bJJ__" .illegal).trapping.rewritable,
    (plain 0xba "invokedynamic" "bJJJJ" .illegal).trapping.rewritable,
    (plain 0xbb "new" "bkk" .object).trapping.rewritable,
    (plain 0xbc "newarray" "bc" .object).trapping,
    (plain 0xbd "anewarray" "bkk" .object).trapping,
    (plain 0xbe "arraylength" "b" .void).trapping,
    (plain 0xbf "athrow" "b" .void).trapping,
    (plain 0xc0 "checkcast" "bkk" .object).trapping,
    (plain 0xc1 "instanceof" "bkk" .int).trapping,
    (plain 0xc2 "monitorenter" "b" .void).trapping,
    (plain 0xc3 "monitorexit" "b" .void).trapping]

/-- The wide prefix, the extended branches, and the mark of a debugger. -/
def extended : List OpcodeDefinition :=
  [plain 0xc4 "wide" "" .void,
    (plain 0xc5 "multianewarray" "bkkc" .object).trapping,
    plain 0xc6 "ifnull" "boo" .void,
    plain 0xc7 "ifnonnull" "boo" .void,
    plain 0xc8 "goto_w" "boooo" .void,
    plain 0xc9 "jsr_w" "boooo" .int,
    (plain 0xca "breakpoint" "" .void).trapping]

/-- Fast forms, each under the standard opcode it stands for. -/
def fast : List OpcodeDefinition :=
  [(plain 0xcb "fast_agetfield" "bJJ" .object).trapping.formOf .getfield,
    (plain 0xcc "fast_bgetfield" "bJJ" .int).trapping.formOf .getfield,
    (plain 0xcd "fast_cgetfield" "bJJ" .char).trapping.formOf .getfield,
    (plain 0xce "fast_dgetfield" "bJJ" .double).trapping.formOf .getfield,
    (plain 0xcf "fast_fgetfield" "bJJ" .float).trapping.formOf .getfield,
    (plain 0xd0 "fast_igetfield" "bJJ" .int).trapping.formOf .getfield,
    (plain 0xd1 "fast_lgetfield" "bJJ" .long).trapping.formOf .getfield,
    (plain 0xd2 "fast_sgetfield" "bJJ" .short).trapping.formOf .getfield,
    (plain 0xd3 "fast_aputfield" "bJJ" .object).trapping.formOf .putfield,
    (plain 0xd4 "fast_bputfield" "bJJ" .int).trapping.formOf .putfield,
    (plain 0xd5 "fast_cputfield" "bJJ" .char).trapping.formOf .putfield,
    (plain 0xd6 "fast_dputfield" "bJJ" .double).trapping.formOf .putfield,
    (plain 0xd7 "fast_fputfield" "bJJ" .float).trapping.formOf .putfield,
    (plain 0xd8 "fast_iputfield" "bJJ" .int).trapping.formOf .putfield,
    (plain 0xd9 "fast_lputfield" "bJJ" .long).trapping.formOf .putfield,
    (plain 0xda "fast_sputfield" "bJJ" .short).trapping.formOf .putfield,
    (plain 0xdb "fast_aload_0" "b" .object).formOf .aload0,
    (plain 0xdc "fast_iaccess_0" "b_JJ" .int).trapping.formOf .aload0,
    (plain 0xdd "fast_aaccess_0" "b_JJ" .object).trapping.formOf .aload0,
    (plain 0xde "fast_faccess_0" "b_JJ" .object).trapping.formOf .aload0,
    (plain 0xdf "fast_iload" "bi" .int).formOf .iload,
    (plain 0xe0 "fast_iload2" "bi_i" .int).formOf .iload,
    (plain 0xe1 "fast_icaload" "bi_" .int).formOf .iload,
    (plain 0xe2 "fast_invokevfinal" "bJJ" .illegal).trapping.formOf .invokevirtual,
    (plain 0xe3 "fast_linearswitch" "" .void).formOf .lookupswitch,
    (plain 0xe4 "fast_binaryswitch" "" .void).formOf .lookupswitch,
    (plain 0xe5 "fast_aldc" "bj" .object).trapping.formOf .ldc,
    (plain 0xe6 "fast_aldc_w" "bJJ" .object).trapping.formOf .ldcW,
    (plain 0xe7 "return_register_finalizer" "b" .void).trapping.formOf .returnVoid,
    plain 0xe8 "shouldnotreachhere" "b" .void]

/-- Every opcode of the standard set and of the runtime, in ascending order. -/
def standard : List OpcodeDefinition :=
  constants ++ loads ++ stores ++ stack ++ arithmetic ++ control ++
    references ++ extended ++ fast

end MethodCode.OpcodeDefinition
