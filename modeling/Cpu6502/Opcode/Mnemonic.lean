/-!
# Mnemonics

The fifty-six documented instructions, apart from where their operands lie.
-/

namespace Cpu6502

inductive Mnemonic where
  | lda | ldx | ldy | sta | stx | sty
  | tax | tay | txa | tya | tsx | txs
  | pha | php | pla | plp
  | and | eor | ora | bit
  | adc | sbc | cmp | cpx | cpy
  | inc | inx | iny | dec | dex | dey
  | asl | lsr | rol | ror
  | jmp | jsr | rts
  | bcc | bcs | beq | bmi | bne | bpl | bvc | bvs
  | clc | cld | cli | clv | sec | sed | sei
  | brk | nop | rti
  deriving DecidableEq, Repr

namespace Mnemonic

def name : Mnemonic → String
  | .lda => "LDA"
  | .ldx => "LDX"
  | .ldy => "LDY"
  | .sta => "STA"
  | .stx => "STX"
  | .sty => "STY"
  | .tax => "TAX"
  | .tay => "TAY"
  | .txa => "TXA"
  | .tya => "TYA"
  | .tsx => "TSX"
  | .txs => "TXS"
  | .pha => "PHA"
  | .php => "PHP"
  | .pla => "PLA"
  | .plp => "PLP"
  | .and => "AND"
  | .eor => "EOR"
  | .ora => "ORA"
  | .bit => "BIT"
  | .adc => "ADC"
  | .sbc => "SBC"
  | .cmp => "CMP"
  | .cpx => "CPX"
  | .cpy => "CPY"
  | .inc => "INC"
  | .inx => "INX"
  | .iny => "INY"
  | .dec => "DEC"
  | .dex => "DEX"
  | .dey => "DEY"
  | .asl => "ASL"
  | .lsr => "LSR"
  | .rol => "ROL"
  | .ror => "ROR"
  | .jmp => "JMP"
  | .jsr => "JSR"
  | .rts => "RTS"
  | .bcc => "BCC"
  | .bcs => "BCS"
  | .beq => "BEQ"
  | .bmi => "BMI"
  | .bne => "BNE"
  | .bpl => "BPL"
  | .bvc => "BVC"
  | .bvs => "BVS"
  | .clc => "CLC"
  | .cld => "CLD"
  | .cli => "CLI"
  | .clv => "CLV"
  | .sec => "SEC"
  | .sed => "SED"
  | .sei => "SEI"
  | .brk => "BRK"
  | .nop => "NOP"
  | .rti => "RTI"

end Mnemonic

end Cpu6502
