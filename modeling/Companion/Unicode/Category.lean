import Companion.Unicode.Ranges

/-!
# General categories

Every code point has one general category. The table lists the runs of equal category in
ascending order, each by its two-letter code and first code point in hexadecimal; a run ends
where the next one starts.
-/

namespace Companion.Unicode

/-- The general categories, by their two-letter codes. -/
inductive Category where
  | lu | ll | lt | lm | lo | mn | mc | me | nd | nl | no | pc | pd | ps | pe | pi | pf | po
  | sm | sc | sk | so | zs | zl | zp | cc | cf | cs | co | cn
  deriving DecidableEq, Repr

namespace Category

/-- The category of a two-letter code in lower case. -/
def ofCode? : List Char → Option Category
  | ['l', 'u'] => some lu | ['l', 'l'] => some ll | ['l', 't'] => some lt
  | ['l', 'm'] => some lm | ['l', 'o'] => some lo | ['m', 'n'] => some mn
  | ['m', 'c'] => some mc | ['m', 'e'] => some me | ['n', 'd'] => some nd
  | ['n', 'l'] => some nl | ['n', 'o'] => some no | ['p', 'c'] => some pc
  | ['p', 'd'] => some pd | ['p', 's'] => some ps | ['p', 'e'] => some pe
  | ['p', 'i'] => some pi | ['p', 'f'] => some pf | ['p', 'o'] => some po
  | ['s', 'm'] => some sm | ['s', 'c'] => some sc | ['s', 'k'] => some sk
  | ['s', 'o'] => some so | ['z', 's'] => some zs | ['z', 'l'] => some zl
  | ['z', 'p'] => some zp | ['c', 'c'] => some cc | ['c', 'f'] => some cf
  | ['c', 's'] => some cs | ['c', 'o'] => some co | ['c', 'n'] => some cn
  | _ => none

end Category

private def categoryRows : List String := [
  "cc0 zs20 po21 sc24 po25 ps28 pe29 po2A sm2B po2C pd2D po2E nd30 po3A sm3C po3F lu41 ps5B",
  "po5C pe5D sk5E pc5F sk60 ll61 ps7B sm7C pe7D sm7E cc7F zsA0 poA1 scA2 soA6 poA7 skA8 soA9",
  "loAA piAB smAC cfAD soAE skAF soB0 smB1 noB2 skB4 llB5 poB6 skB8 noB9 loBA pfBB noBC poBF",
  "luC0 smD7 luD8 llDF smF7 llF8 lu100 ll101 lu102 ll103 lu104 ll105 lu106 ll107 lu108 ll109",
  "lu10A ll10B lu10C ll10D lu10E ll10F lu110 ll111 lu112 ll113 lu114 ll115 lu116 ll117 lu118",
  "ll119 lu11A ll11B lu11C ll11D lu11E ll11F lu120 ll121 lu122 ll123 lu124 ll125 lu126 ll127",
  "lu128 ll129 lu12A ll12B lu12C ll12D lu12E ll12F lu130 ll131 lu132 ll133 lu134 ll135 lu136",
  "ll137 lu139 ll13A lu13B ll13C lu13D ll13E lu13F ll140 lu141 ll142 lu143 ll144 lu145 ll146",
  "lu147 ll148 lu14A ll14B lu14C ll14D lu14E ll14F lu150 ll151 lu152 ll153 lu154 ll155 lu156",
  "ll157 lu158 ll159 lu15A ll15B lu15C ll15D lu15E ll15F lu160 ll161 lu162 ll163 lu164 ll165",
  "lu166 ll167 lu168 ll169 lu16A ll16B lu16C ll16D lu16E ll16F lu170 ll171 lu172 ll173 lu174",
  "ll175 lu176 ll177 lu178 ll17A lu17B ll17C lu17D ll17E lu181 ll183 lu184 ll185 lu186 ll188",
  "lu189 ll18C lu18E ll192 lu193 ll195 lu196 ll199 lu19C ll19E lu19F ll1A1 lu1A2 ll1A3 lu1A4",
  "ll1A5 lu1A6 ll1A8 lu1A9 ll1AA lu1AC ll1AD lu1AE ll1B0 lu1B1 ll1B4 lu1B5 ll1B6 lu1B7 ll1B9",
  "lo1BB lu1BC ll1BD lo1C0 lu1C4 lt1C5 ll1C6 lu1C7 lt1C8 ll1C9 lu1CA lt1CB ll1CC lu1CD ll1CE",
  "lu1CF ll1D0 lu1D1 ll1D2 lu1D3 ll1D4 lu1D5 ll1D6 lu1D7 ll1D8 lu1D9 ll1DA lu1DB ll1DC lu1DE",
  "ll1DF lu1E0 ll1E1 lu1E2 ll1E3 lu1E4 ll1E5 lu1E6 ll1E7 lu1E8 ll1E9 lu1EA ll1EB lu1EC ll1ED",
  "lu1EE ll1EF lu1F1 lt1F2 ll1F3 lu1F4 ll1F5 lu1F6 ll1F9 lu1FA ll1FB lu1FC ll1FD lu1FE ll1FF",
  "lu200 ll201 lu202 ll203 lu204 ll205 lu206 ll207 lu208 ll209 lu20A ll20B lu20C ll20D lu20E",
  "ll20F lu210 ll211 lu212 ll213 lu214 ll215 lu216 ll217 lu218 ll219 lu21A ll21B lu21C ll21D",
  "lu21E ll21F lu220 ll221 lu222 ll223 lu224 ll225 lu226 ll227 lu228 ll229 lu22A ll22B lu22C",
  "ll22D lu22E ll22F lu230 ll231 lu232 ll233 lu23A ll23C lu23D ll23F lu241 ll242 lu243 ll247",
  "lu248 ll249 lu24A ll24B lu24C ll24D lu24E ll24F lo294 ll296 lm2B0 sk2C2 lm2C6 sk2D2 lm2E0",
  "sk2E5 lm2EC sk2ED lm2EE sk2EF mn300 lu370 ll371 lu372 ll373 lm374 sk375 lu376 ll377 cn378",
  "lm37A ll37B po37E lu37F cn380 sk384 lu386 po387 lu388 cn38B lu38C cn38D lu38E ll390 lu391",
  "cn3A2 lu3A3 ll3AC lu3CF ll3D0 lu3D2 ll3D5 lu3D8 ll3D9 lu3DA ll3DB lu3DC ll3DD lu3DE ll3DF",
  "lu3E0 ll3E1 lu3E2 ll3E3 lu3E4 ll3E5 lu3E6 ll3E7 lu3E8 ll3E9 lu3EA ll3EB lu3EC ll3ED lu3EE",
  "ll3EF lu3F4 ll3F5 sm3F6 lu3F7 ll3F8 lu3F9 ll3FB lu3FD ll430 lu460 ll461 lu462 ll463 lu464",
  "ll465 lu466 ll467 lu468 ll469 lu46A ll46B lu46C ll46D lu46E ll46F lu470 ll471 lu472 ll473",
  "lu474 ll475 lu476 ll477 lu478 ll479 lu47A ll47B lu47C ll47D lu47E ll47F lu480 ll481 so482",
  "mn483 me488 lu48A ll48B lu48C ll48D lu48E ll48F lu490 ll491 lu492 ll493 lu494 ll495 lu496",
  "ll497 lu498 ll499 lu49A ll49B lu49C ll49D lu49E ll49F lu4A0 ll4A1 lu4A2 ll4A3 lu4A4 ll4A5",
  "lu4A6 ll4A7 lu4A8 ll4A9 lu4AA ll4AB lu4AC ll4AD lu4AE ll4AF lu4B0 ll4B1 lu4B2 ll4B3 lu4B4",
  "ll4B5 lu4B6 ll4B7 lu4B8 ll4B9 lu4BA ll4BB lu4BC ll4BD lu4BE ll4BF lu4C0 ll4C2 lu4C3 ll4C4",
  "lu4C5 ll4C6 lu4C7 ll4C8 lu4C9 ll4CA lu4CB ll4CC lu4CD ll4CE lu4D0 ll4D1 lu4D2 ll4D3 lu4D4",
  "ll4D5 lu4D6 ll4D7 lu4D8 ll4D9 lu4DA ll4DB lu4DC ll4DD lu4DE ll4DF lu4E0 ll4E1 lu4E2 ll4E3",
  "lu4E4 ll4E5 lu4E6 ll4E7 lu4E8 ll4E9 lu4EA ll4EB lu4EC ll4ED lu4EE ll4EF lu4F0 ll4F1 lu4F2",
  "ll4F3 lu4F4 ll4F5 lu4F6 ll4F7 lu4F8 ll4F9 lu4FA ll4FB lu4FC ll4FD lu4FE ll4FF lu500 ll501",
  "lu502 ll503 lu504 ll505 lu506 ll507 lu508 ll509 lu50A ll50B lu50C ll50D lu50E ll50F lu510",
  "ll511 lu512 ll513 lu514 ll515 lu516 ll517 lu518 ll519 lu51A ll51B lu51C ll51D lu51E ll51F",
  "lu520 ll521 lu522 ll523 lu524 ll525 lu526 ll527 lu528 ll529 lu52A ll52B lu52C ll52D lu52E",
  "ll52F cn530 lu531 cn557 lm559 po55A ll560 po589 pd58A cn58B so58D sc58F cn590 mn591 pd5BE",
  "mn5BF po5C0 mn5C1 po5C3 mn5C4 po5C6 mn5C7 cn5C8 lo5D0 cn5EB lo5EF po5F3 cn5F5 cf600 sm606",
  "po609 sc60B po60C so60E mn610 po61B cf61C po61D lo620 lm640 lo641 mn64B nd660 po66A lo66E",
  "mn670 lo671 po6D4 lo6D5 mn6D6 cf6DD so6DE mn6DF lm6E5 mn6E7 so6E9 mn6EA lo6EE nd6F0 lo6FA",
  "so6FD lo6FF po700 cn70E cf70F lo710 mn711 lo712 mn730 cn74B lo74D mn7A6 lo7B1 cn7B2 nd7C0",
  "lo7CA mn7EB lm7F4 so7F6 po7F7 lm7FA cn7FB mn7FD sc7FE lo800 mn816 lm81A mn81B lm824 mn825",
  "lm828 mn829 cn82E po830 cn83F lo840 mn859 cn85C po85E cn85F lo860 cn86B lo870 sk888 lo889",
  "cf890 cn892 mn897 lo8A0 lm8C9 mn8CA cf8E2 mn8E3 mc903 lo904 mn93A mc93B mn93C lo93D mc93E",
  "mn941 mc949 mn94D mc94E lo950 mn951 lo958 mn962 po964 nd966 po970 lm971 lo972 mn981 mc982",
  "cn984 lo985 cn98D lo98F cn991 lo993 cn9A9 lo9AA cn9B1 lo9B2 cn9B3 lo9B6 cn9BA mn9BC lo9BD",
  "mc9BE mn9C1 cn9C5 mc9C7 cn9C9 mc9CB mn9CD lo9CE cn9CF mc9D7 cn9D8 lo9DC cn9DE lo9DF mn9E2",
  "cn9E4 nd9E6 lo9F0 sc9F2 no9F4 so9FA sc9FB lo9FC po9FD mn9FE cn9FF mnA01 mcA03 cnA04 loA05",
  "cnA0B loA0F cnA11 loA13 cnA29 loA2A cnA31 loA32 cnA34 loA35 cnA37 loA38 cnA3A mnA3C cnA3D",
  "mcA3E mnA41 cnA43 mnA47 cnA49 mnA4B cnA4E mnA51 cnA52 loA59 cnA5D loA5E cnA5F ndA66 mnA70",
  "loA72 mnA75 poA76 cnA77 mnA81 mcA83 cnA84 loA85 cnA8E loA8F cnA92 loA93 cnAA9 loAAA cnAB1",
  "loAB2 cnAB4 loAB5 cnABA mnABC loABD mcABE mnAC1 cnAC6 mnAC7 mcAC9 cnACA mcACB mnACD cnACE",
  "loAD0 cnAD1 loAE0 mnAE2 cnAE4 ndAE6 poAF0 scAF1 cnAF2 loAF9 mnAFA cnB00 mnB01 mcB02 cnB04",
  "loB05 cnB0D loB0F cnB11 loB13 cnB29 loB2A cnB31 loB32 cnB34 loB35 cnB3A mnB3C loB3D mcB3E",
  "mnB3F mcB40 mnB41 cnB45 mcB47 cnB49 mcB4B mnB4D cnB4E mnB55 mcB57 cnB58 loB5C cnB5E loB5F",
  "mnB62 cnB64 ndB66 soB70 loB71 noB72 cnB78 mnB82 loB83 cnB84 loB85 cnB8B loB8E cnB91 loB92",
  "cnB96 loB99 cnB9B loB9C cnB9D loB9E cnBA0 loBA3 cnBA5 loBA8 cnBAB loBAE cnBBA mcBBE mnBC0",
  "mcBC1 cnBC3 mcBC6 cnBC9 mcBCA mnBCD cnBCE loBD0 cnBD1 mcBD7 cnBD8 ndBE6 noBF0 soBF3 scBF9",
  "soBFA cnBFB mnC00 mcC01 mnC04 loC05 cnC0D loC0E cnC11 loC12 cnC29 loC2A cnC3A mnC3C loC3D",
  "mnC3E mcC41 cnC45 mnC46 cnC49 mnC4A cnC4E mnC55 cnC57 loC58 cnC5B loC5C cnC5E loC60 mnC62",
  "cnC64 ndC66 cnC70 poC77 noC78 soC7F loC80 mnC81 mcC82 poC84 loC85 cnC8D loC8E cnC91 loC92",
  "cnCA9 loCAA cnCB4 loCB5 cnCBA mnCBC loCBD mcCBE mnCBF mcCC0 cnCC5 mnCC6 mcCC7 cnCC9 mcCCA",
  "mnCCC cnCCE mcCD5 cnCD7 loCDC cnCDF loCE0 mnCE2 cnCE4 ndCE6 cnCF0 loCF1 mcCF3 cnCF4 mnD00",
  "mcD02 loD04 cnD0D loD0E cnD11 loD12 mnD3B loD3D mcD3E mnD41 cnD45 mcD46 cnD49 mcD4A mnD4D",
  "loD4E soD4F cnD50 loD54 mcD57 noD58 loD5F mnD62 cnD64 ndD66 noD70 soD79 loD7A cnD80 mnD81",
  "mcD82 cnD84 loD85 cnD97 loD9A cnDB2 loDB3 cnDBC loDBD cnDBE loDC0 cnDC7 mnDCA cnDCB mcDCF",
  "mnDD2 cnDD5 mnDD6 cnDD7 mcDD8 cnDE0 ndDE6 cnDF0 mcDF2 poDF4 cnDF5 loE01 mnE31 loE32 mnE34",
  "cnE3B scE3F loE40 lmE46 mnE47 poE4F ndE50 poE5A cnE5C loE81 cnE83 loE84 cnE85 loE86 cnE8B",
  "loE8C cnEA4 loEA5 cnEA6 loEA7 mnEB1 loEB2 mnEB4 loEBD cnEBE loEC0 cnEC5 lmEC6 cnEC7 mnEC8",
  "cnECF ndED0 cnEDA loEDC cnEE0 loF00 soF01 poF04 soF13 poF14 soF15 mnF18 soF1A ndF20 noF2A",
  "soF34 mnF35 soF36 mnF37 soF38 mnF39 psF3A peF3B psF3C peF3D mcF3E loF40 cnF48 loF49 cnF6D",
  "mnF71 mcF7F mnF80 poF85 mnF86 loF88 mnF8D cnF98 mnF99 cnFBD soFBE mnFC6 soFC7 cnFCD soFCE",
  "poFD0 soFD5 poFD9 cnFDB lo1000 mc102B mn102D mc1031 mn1032 mc1038 mn1039 mc103B mn103D",
  "lo103F nd1040 po104A lo1050 mc1056 mn1058 lo105A mn105E lo1061 mc1062 lo1065 mc1067 lo106E",
  "mn1071 lo1075 mn1082 mc1083 mn1085 mc1087 mn108D lo108E mc108F nd1090 mc109A mn109D so109E",
  "lu10A0 cn10C6 lu10C7 cn10C8 lu10CD cn10CE ll10D0 po10FB lm10FC ll10FD lo1100 cn1249 lo124A",
  "cn124E lo1250 cn1257 lo1258 cn1259 lo125A cn125E lo1260 cn1289 lo128A cn128E lo1290 cn12B1",
  "lo12B2 cn12B6 lo12B8 cn12BF lo12C0 cn12C1 lo12C2 cn12C6 lo12C8 cn12D7 lo12D8 cn1311 lo1312",
  "cn1316 lo1318 cn135B mn135D po1360 no1369 cn137D lo1380 so1390 cn139A lu13A0 cn13F6 ll13F8",
  "cn13FE pd1400 lo1401 so166D po166E lo166F zs1680 lo1681 ps169B pe169C cn169D lo16A0 po16EB",
  "nl16EE lo16F1 cn16F9 lo1700 mn1712 mc1715 cn1716 lo171F mn1732 mc1734 po1735 cn1737 lo1740",
  "mn1752 cn1754 lo1760 cn176D lo176E cn1771 mn1772 cn1774 lo1780 mn17B4 mc17B6 mn17B7 mc17BE",
  "mn17C6 mc17C7 mn17C9 po17D4 lm17D7 po17D8 sc17DB lo17DC mn17DD cn17DE nd17E0 cn17EA no17F0",
  "cn17FA po1800 pd1806 po1807 mn180B cf180E mn180F nd1810 cn181A lo1820 lm1843 lo1844 cn1879",
  "lo1880 mn1885 lo1887 mn18A9 lo18AA cn18AB lo18B0 cn18F6 lo1900 cn191F mn1920 mc1923 mn1927",
  "mc1929 cn192C mc1930 mn1932 mc1933 mn1939 cn193C so1940 cn1941 po1944 nd1946 lo1950 cn196E",
  "lo1970 cn1975 lo1980 cn19AC lo19B0 cn19CA nd19D0 no19DA cn19DB so19DE lo1A00 mn1A17 mc1A19",
  "mn1A1B cn1A1C po1A1E lo1A20 mc1A55 mn1A56 mc1A57 mn1A58 cn1A5F mn1A60 mc1A61 mn1A62 mc1A63",
  "mn1A65 mc1A6D mn1A73 cn1A7D mn1A7F nd1A80 cn1A8A nd1A90 cn1A9A po1AA0 lm1AA7 po1AA8 cn1AAE",
  "mn1AB0 me1ABE mn1ABF cn1ADE mn1AE0 cn1AEC mn1B00 mc1B04 lo1B05 mn1B34 mc1B35 mn1B36 mc1B3B",
  "mn1B3C mc1B3D mn1B42 mc1B43 lo1B45 cn1B4D po1B4E nd1B50 po1B5A so1B61 mn1B6B so1B74 po1B7D",
  "mn1B80 mc1B82 lo1B83 mc1BA1 mn1BA2 mc1BA6 mn1BA8 mc1BAA mn1BAB lo1BAE nd1BB0 lo1BBA mn1BE6",
  "mc1BE7 mn1BE8 mc1BEA mn1BED mc1BEE mn1BEF mc1BF2 cn1BF4 po1BFC lo1C00 mc1C24 mn1C2C mc1C34",
  "mn1C36 cn1C38 po1C3B nd1C40 cn1C4A lo1C4D nd1C50 lo1C5A lm1C78 po1C7E ll1C80 lu1C89 ll1C8A",
  "cn1C8B lu1C90 cn1CBB lu1CBD po1CC0 cn1CC8 mn1CD0 po1CD3 mn1CD4 mc1CE1 mn1CE2 lo1CE9 mn1CED",
  "lo1CEE mn1CF4 lo1CF5 mc1CF7 mn1CF8 lo1CFA cn1CFB ll1D00 lm1D2C ll1D6B lm1D78 ll1D79 lm1D9B",
  "mn1DC0 lu1E00 ll1E01 lu1E02 ll1E03 lu1E04 ll1E05 lu1E06 ll1E07 lu1E08 ll1E09 lu1E0A ll1E0B",
  "lu1E0C ll1E0D lu1E0E ll1E0F lu1E10 ll1E11 lu1E12 ll1E13 lu1E14 ll1E15 lu1E16 ll1E17 lu1E18",
  "ll1E19 lu1E1A ll1E1B lu1E1C ll1E1D lu1E1E ll1E1F lu1E20 ll1E21 lu1E22 ll1E23 lu1E24 ll1E25",
  "lu1E26 ll1E27 lu1E28 ll1E29 lu1E2A ll1E2B lu1E2C ll1E2D lu1E2E ll1E2F lu1E30 ll1E31 lu1E32",
  "ll1E33 lu1E34 ll1E35 lu1E36 ll1E37 lu1E38 ll1E39 lu1E3A ll1E3B lu1E3C ll1E3D lu1E3E ll1E3F",
  "lu1E40 ll1E41 lu1E42 ll1E43 lu1E44 ll1E45 lu1E46 ll1E47 lu1E48 ll1E49 lu1E4A ll1E4B lu1E4C",
  "ll1E4D lu1E4E ll1E4F lu1E50 ll1E51 lu1E52 ll1E53 lu1E54 ll1E55 lu1E56 ll1E57 lu1E58 ll1E59",
  "lu1E5A ll1E5B lu1E5C ll1E5D lu1E5E ll1E5F lu1E60 ll1E61 lu1E62 ll1E63 lu1E64 ll1E65 lu1E66",
  "ll1E67 lu1E68 ll1E69 lu1E6A ll1E6B lu1E6C ll1E6D lu1E6E ll1E6F lu1E70 ll1E71 lu1E72 ll1E73",
  "lu1E74 ll1E75 lu1E76 ll1E77 lu1E78 ll1E79 lu1E7A ll1E7B lu1E7C ll1E7D lu1E7E ll1E7F lu1E80",
  "ll1E81 lu1E82 ll1E83 lu1E84 ll1E85 lu1E86 ll1E87 lu1E88 ll1E89 lu1E8A ll1E8B lu1E8C ll1E8D",
  "lu1E8E ll1E8F lu1E90 ll1E91 lu1E92 ll1E93 lu1E94 ll1E95 lu1E9E ll1E9F lu1EA0 ll1EA1 lu1EA2",
  "ll1EA3 lu1EA4 ll1EA5 lu1EA6 ll1EA7 lu1EA8 ll1EA9 lu1EAA ll1EAB lu1EAC ll1EAD lu1EAE ll1EAF",
  "lu1EB0 ll1EB1 lu1EB2 ll1EB3 lu1EB4 ll1EB5 lu1EB6 ll1EB7 lu1EB8 ll1EB9 lu1EBA ll1EBB lu1EBC",
  "ll1EBD lu1EBE ll1EBF lu1EC0 ll1EC1 lu1EC2 ll1EC3 lu1EC4 ll1EC5 lu1EC6 ll1EC7 lu1EC8 ll1EC9",
  "lu1ECA ll1ECB lu1ECC ll1ECD lu1ECE ll1ECF lu1ED0 ll1ED1 lu1ED2 ll1ED3 lu1ED4 ll1ED5 lu1ED6",
  "ll1ED7 lu1ED8 ll1ED9 lu1EDA ll1EDB lu1EDC ll1EDD lu1EDE ll1EDF lu1EE0 ll1EE1 lu1EE2 ll1EE3",
  "lu1EE4 ll1EE5 lu1EE6 ll1EE7 lu1EE8 ll1EE9 lu1EEA ll1EEB lu1EEC ll1EED lu1EEE ll1EEF lu1EF0",
  "ll1EF1 lu1EF2 ll1EF3 lu1EF4 ll1EF5 lu1EF6 ll1EF7 lu1EF8 ll1EF9 lu1EFA ll1EFB lu1EFC ll1EFD",
  "lu1EFE ll1EFF lu1F08 ll1F10 cn1F16 lu1F18 cn1F1E ll1F20 lu1F28 ll1F30 lu1F38 ll1F40 cn1F46",
  "lu1F48 cn1F4E ll1F50 cn1F58 lu1F59 cn1F5A lu1F5B cn1F5C lu1F5D cn1F5E lu1F5F ll1F60 lu1F68",
  "ll1F70 cn1F7E ll1F80 lt1F88 ll1F90 lt1F98 ll1FA0 lt1FA8 ll1FB0 cn1FB5 ll1FB6 lu1FB8 lt1FBC",
  "sk1FBD ll1FBE sk1FBF ll1FC2 cn1FC5 ll1FC6 lu1FC8 lt1FCC sk1FCD ll1FD0 cn1FD4 ll1FD6 lu1FD8",
  "cn1FDC sk1FDD ll1FE0 lu1FE8 sk1FED cn1FF0 ll1FF2 cn1FF5 ll1FF6 lu1FF8 lt1FFC sk1FFD cn1FFF",
  "zs2000 cf200B pd2010 po2016 pi2018 pf2019 ps201A pi201B pf201D ps201E pi201F po2020 zl2028",
  "zp2029 cf202A zs202F po2030 pi2039 pf203A po203B pc203F po2041 sm2044 ps2045 pe2046 po2047",
  "sm2052 po2053 pc2054 po2055 zs205F cf2060 cn2065 cf2066 no2070 lm2071 cn2072 no2074 sm207A",
  "ps207D pe207E lm207F no2080 sm208A ps208D pe208E cn208F lm2090 cn209D sc20A0 cn20C2 mn20D0",
  "me20DD mn20E1 me20E2 mn20E5 cn20F1 so2100 lu2102 so2103 lu2107 so2108 ll210A lu210B ll210E",
  "lu2110 ll2113 so2114 lu2115 so2116 sm2118 lu2119 so211E lu2124 so2125 lu2126 so2127 lu2128",
  "so2129 lu212A so212E ll212F lu2130 ll2134 lo2135 ll2139 so213A ll213C lu213E sm2140 lu2145",
  "ll2146 so214A sm214B so214C ll214E so214F no2150 nl2160 lu2183 ll2184 nl2185 no2189 so218A",
  "cn218C sm2190 so2195 sm219A so219C sm21A0 so21A1 sm21A3 so21A4 sm21A6 so21A7 sm21AE so21AF",
  "sm21CE so21D0 sm21D2 so21D3 sm21D4 so21D5 sm21F4 so2300 ps2308 pe2309 ps230A pe230B so230C",
  "sm2320 so2322 ps2329 pe232A so232B sm237C so237D sm239B so23B4 sm23DC so23E2 cn242A so2440",
  "cn244B no2460 so249C no24EA so2500 sm25B7 so25B8 sm25C1 so25C2 sm25F8 so2600 sm266F so2670",
  "ps2768 pe2769 ps276A pe276B ps276C pe276D ps276E pe276F ps2770 pe2771 ps2772 pe2773 ps2774",
  "pe2775 no2776 so2794 sm27C0 ps27C5 pe27C6 sm27C7 ps27E6 pe27E7 ps27E8 pe27E9 ps27EA pe27EB",
  "ps27EC pe27ED ps27EE pe27EF sm27F0 so2800 sm2900 ps2983 pe2984 ps2985 pe2986 ps2987 pe2988",
  "ps2989 pe298A ps298B pe298C ps298D pe298E ps298F pe2990 ps2991 pe2992 ps2993 pe2994 ps2995",
  "pe2996 ps2997 pe2998 sm2999 ps29D8 pe29D9 ps29DA pe29DB sm29DC ps29FC pe29FD sm29FE so2B00",
  "sm2B30 so2B45 sm2B47 so2B4D cn2B74 so2B76 lu2C00 ll2C30 lu2C60 ll2C61 lu2C62 ll2C65 lu2C67",
  "ll2C68 lu2C69 ll2C6A lu2C6B ll2C6C lu2C6D ll2C71 lu2C72 ll2C73 lu2C75 ll2C76 lm2C7C lu2C7E",
  "ll2C81 lu2C82 ll2C83 lu2C84 ll2C85 lu2C86 ll2C87 lu2C88 ll2C89 lu2C8A ll2C8B lu2C8C ll2C8D",
  "lu2C8E ll2C8F lu2C90 ll2C91 lu2C92 ll2C93 lu2C94 ll2C95 lu2C96 ll2C97 lu2C98 ll2C99 lu2C9A",
  "ll2C9B lu2C9C ll2C9D lu2C9E ll2C9F lu2CA0 ll2CA1 lu2CA2 ll2CA3 lu2CA4 ll2CA5 lu2CA6 ll2CA7",
  "lu2CA8 ll2CA9 lu2CAA ll2CAB lu2CAC ll2CAD lu2CAE ll2CAF lu2CB0 ll2CB1 lu2CB2 ll2CB3 lu2CB4",
  "ll2CB5 lu2CB6 ll2CB7 lu2CB8 ll2CB9 lu2CBA ll2CBB lu2CBC ll2CBD lu2CBE ll2CBF lu2CC0 ll2CC1",
  "lu2CC2 ll2CC3 lu2CC4 ll2CC5 lu2CC6 ll2CC7 lu2CC8 ll2CC9 lu2CCA ll2CCB lu2CCC ll2CCD lu2CCE",
  "ll2CCF lu2CD0 ll2CD1 lu2CD2 ll2CD3 lu2CD4 ll2CD5 lu2CD6 ll2CD7 lu2CD8 ll2CD9 lu2CDA ll2CDB",
  "lu2CDC ll2CDD lu2CDE ll2CDF lu2CE0 ll2CE1 lu2CE2 ll2CE3 so2CE5 lu2CEB ll2CEC lu2CED ll2CEE",
  "mn2CEF lu2CF2 ll2CF3 cn2CF4 po2CF9 no2CFD po2CFE ll2D00 cn2D26 ll2D27 cn2D28 ll2D2D cn2D2E",
  "lo2D30 cn2D68 lm2D6F po2D70 cn2D71 mn2D7F lo2D80 cn2D97 lo2DA0 cn2DA7 lo2DA8 cn2DAF lo2DB0",
  "cn2DB7 lo2DB8 cn2DBF lo2DC0 cn2DC7 lo2DC8 cn2DCF lo2DD0 cn2DD7 lo2DD8 cn2DDF mn2DE0 po2E00",
  "pi2E02 pf2E03 pi2E04 pf2E05 po2E06 pi2E09 pf2E0A po2E0B pi2E0C pf2E0D po2E0E pd2E17 po2E18",
  "pd2E1A po2E1B pi2E1C pf2E1D po2E1E pi2E20 pf2E21 ps2E22 pe2E23 ps2E24 pe2E25 ps2E26 pe2E27",
  "ps2E28 pe2E29 po2E2A lm2E2F po2E30 pd2E3A po2E3C pd2E40 po2E41 ps2E42 po2E43 so2E50 po2E52",
  "ps2E55 pe2E56 ps2E57 pe2E58 ps2E59 pe2E5A ps2E5B pe2E5C pd2E5D cn2E5E so2E80 cn2E9A so2E9B",
  "cn2EF4 so2F00 cn2FD6 so2FF0 zs3000 po3001 so3004 lm3005 lo3006 nl3007 ps3008 pe3009 ps300A",
  "pe300B ps300C pe300D ps300E pe300F ps3010 pe3011 so3012 ps3014 pe3015 ps3016 pe3017 ps3018",
  "pe3019 ps301A pe301B pd301C ps301D pe301E so3020 nl3021 mn302A mc302E pd3030 lm3031 so3036",
  "nl3038 lm303B lo303C po303D so303E cn3040 lo3041 cn3097 mn3099 sk309B lm309D lo309F pd30A0",
  "lo30A1 po30FB lm30FC lo30FF cn3100 lo3105 cn3130 lo3131 cn318F so3190 no3192 so3196 lo31A0",
  "so31C0 cn31E6 so31EF lo31F0 so3200 cn321F no3220 so322A no3248 so3250 no3251 so3260 no3280",
  "so328A no32B1 so32C0 lo3400 so4DC0 lo4E00 lmA015 loA016 cnA48D soA490 cnA4C7 loA4D0 lmA4F8",
  "poA4FE loA500 lmA60C poA60D loA610 ndA620 loA62A cnA62C luA640 llA641 luA642 llA643 luA644",
  "llA645 luA646 llA647 luA648 llA649 luA64A llA64B luA64C llA64D luA64E llA64F luA650 llA651",
  "luA652 llA653 luA654 llA655 luA656 llA657 luA658 llA659 luA65A llA65B luA65C llA65D luA65E",
  "llA65F luA660 llA661 luA662 llA663 luA664 llA665 luA666 llA667 luA668 llA669 luA66A llA66B",
  "luA66C llA66D loA66E mnA66F meA670 poA673 mnA674 poA67E lmA67F luA680 llA681 luA682 llA683",
  "luA684 llA685 luA686 llA687 luA688 llA689 luA68A llA68B luA68C llA68D luA68E llA68F luA690",
  "llA691 luA692 llA693 luA694 llA695 luA696 llA697 luA698 llA699 luA69A llA69B lmA69C mnA69E",
  "loA6A0 nlA6E6 mnA6F0 poA6F2 cnA6F8 skA700 lmA717 skA720 luA722 llA723 luA724 llA725 luA726",
  "llA727 luA728 llA729 luA72A llA72B luA72C llA72D luA72E llA72F luA732 llA733 luA734 llA735",
  "luA736 llA737 luA738 llA739 luA73A llA73B luA73C llA73D luA73E llA73F luA740 llA741 luA742",
  "llA743 luA744 llA745 luA746 llA747 luA748 llA749 luA74A llA74B luA74C llA74D luA74E llA74F",
  "luA750 llA751 luA752 llA753 luA754 llA755 luA756 llA757 luA758 llA759 luA75A llA75B luA75C",
  "llA75D luA75E llA75F luA760 llA761 luA762 llA763 luA764 llA765 luA766 llA767 luA768 llA769",
  "luA76A llA76B luA76C llA76D luA76E llA76F lmA770 llA771 luA779 llA77A luA77B llA77C luA77D",
  "llA77F luA780 llA781 luA782 llA783 luA784 llA785 luA786 llA787 lmA788 skA789 luA78B llA78C",
  "luA78D llA78E loA78F luA790 llA791 luA792 llA793 luA796 llA797 luA798 llA799 luA79A llA79B",
  "luA79C llA79D luA79E llA79F luA7A0 llA7A1 luA7A2 llA7A3 luA7A4 llA7A5 luA7A6 llA7A7 luA7A8",
  "llA7A9 luA7AA llA7AF luA7B0 llA7B5 luA7B6 llA7B7 luA7B8 llA7B9 luA7BA llA7BB luA7BC llA7BD",
  "luA7BE llA7BF luA7C0 llA7C1 luA7C2 llA7C3 luA7C4 llA7C8 luA7C9 llA7CA luA7CB llA7CD luA7CE",
  "llA7CF luA7D0 llA7D1 luA7D2 llA7D3 luA7D4 llA7D5 luA7D6 llA7D7 luA7D8 llA7D9 luA7DA llA7DB",
  "luA7DC cnA7DD lmA7F1 luA7F5 llA7F6 loA7F7 lmA7F8 llA7FA loA7FB mnA802 loA803 mnA806 loA807",
  "mnA80B loA80C mcA823 mnA825 mcA827 soA828 mnA82C cnA82D noA830 soA836 scA838 soA839 cnA83A",
  "loA840 poA874 cnA878 mcA880 loA882 mcA8B4 mnA8C4 cnA8C6 poA8CE ndA8D0 cnA8DA mnA8E0 loA8F2",
  "poA8F8 loA8FB poA8FC loA8FD mnA8FF ndA900 loA90A mnA926 poA92E loA930 mnA947 mcA952 cnA954",
  "poA95F loA960 cnA97D mnA980 mcA983 loA984 mnA9B3 mcA9B4 mnA9B6 mcA9BA mnA9BC mcA9BE poA9C1",
  "cnA9CE lmA9CF ndA9D0 cnA9DA poA9DE loA9E0 mnA9E5 lmA9E6 loA9E7 ndA9F0 loA9FA cnA9FF loAA00",
  "mnAA29 mcAA2F mnAA31 mcAA33 mnAA35 cnAA37 loAA40 mnAA43 loAA44 mnAA4C mcAA4D cnAA4E ndAA50",
  "cnAA5A poAA5C loAA60 lmAA70 loAA71 soAA77 loAA7A mcAA7B mnAA7C mcAA7D loAA7E mnAAB0 loAAB1",
  "mnAAB2 loAAB5 mnAAB7 loAAB9 mnAABE loAAC0 mnAAC1 loAAC2 cnAAC3 loAADB lmAADD poAADE loAAE0",
  "mcAAEB mnAAEC mcAAEE poAAF0 loAAF2 lmAAF3 mcAAF5 mnAAF6 cnAAF7 loAB01 cnAB07 loAB09 cnAB0F",
  "loAB11 cnAB17 loAB20 cnAB27 loAB28 cnAB2F llAB30 skAB5B lmAB5C llAB60 lmAB69 skAB6A cnAB6C",
  "llAB70 loABC0 mcABE3 mnABE5 mcABE6 mnABE8 mcABE9 poABEB mcABEC mnABED cnABEE ndABF0 cnABFA",
  "loAC00 cnD7A4 loD7B0 cnD7C7 loD7CB cnD7FC csD800 coE000 loF900 cnFA6E loFA70 cnFADA llFB00",
  "cnFB07 llFB13 cnFB18 loFB1D mnFB1E loFB1F smFB29 loFB2A cnFB37 loFB38 cnFB3D loFB3E cnFB3F",
  "loFB40 cnFB42 loFB43 cnFB45 loFB46 skFBB2 soFBC3 loFBD3 peFD3E psFD3F soFD40 loFD50 soFD90",
  "loFD92 soFDC8 cnFDD0 loFDF0 scFDFC soFDFD mnFE00 poFE10 psFE17 peFE18 poFE19 cnFE1A mnFE20",
  "poFE30 pdFE31 pcFE33 psFE35 peFE36 psFE37 peFE38 psFE39 peFE3A psFE3B peFE3C psFE3D peFE3E",
  "psFE3F peFE40 psFE41 peFE42 psFE43 peFE44 poFE45 psFE47 peFE48 poFE49 pcFE4D poFE50 cnFE53",
  "poFE54 pdFE58 psFE59 peFE5A psFE5B peFE5C psFE5D peFE5E poFE5F smFE62 pdFE63 smFE64 cnFE67",
  "poFE68 scFE69 poFE6A cnFE6C loFE70 cnFE75 loFE76 cnFEFD cfFEFF cnFF00 poFF01 scFF04 poFF05",
  "psFF08 peFF09 poFF0A smFF0B poFF0C pdFF0D poFF0E ndFF10 poFF1A smFF1C poFF1F luFF21 psFF3B",
  "poFF3C peFF3D skFF3E pcFF3F skFF40 llFF41 psFF5B smFF5C peFF5D smFF5E psFF5F peFF60 poFF61",
  "psFF62 peFF63 poFF64 loFF66 lmFF70 loFF71 lmFF9E loFFA0 cnFFBF loFFC2 cnFFC8 loFFCA cnFFD0",
  "loFFD2 cnFFD8 loFFDA cnFFDD scFFE0 smFFE2 skFFE3 soFFE4 scFFE5 cnFFE7 soFFE8 smFFE9 soFFED",
  "cnFFEF cfFFF9 soFFFC cnFFFE lo10000 cn1000C lo1000D cn10027 lo10028 cn1003B lo1003C",
  "cn1003E lo1003F cn1004E lo10050 cn1005E lo10080 cn100FB po10100 cn10103 no10107 cn10134",
  "so10137 nl10140 no10175 so10179 no1018A so1018C cn1018F so10190 cn1019D so101A0 cn101A1",
  "so101D0 mn101FD cn101FE lo10280 cn1029D lo102A0 cn102D1 mn102E0 no102E1 cn102FC lo10300",
  "no10320 cn10324 lo1032D nl10341 lo10342 nl1034A cn1034B lo10350 mn10376 cn1037B lo10380",
  "cn1039E po1039F lo103A0 cn103C4 lo103C8 po103D0 nl103D1 cn103D6 lu10400 ll10428 lo10450",
  "cn1049E nd104A0 cn104AA lu104B0 cn104D4 ll104D8 cn104FC lo10500 cn10528 lo10530 cn10564",
  "po1056F lu10570 cn1057B lu1057C cn1058B lu1058C cn10593 lu10594 cn10596 ll10597 cn105A2",
  "ll105A3 cn105B2 ll105B3 cn105BA ll105BB cn105BD lo105C0 cn105F4 lo10600 cn10737 lo10740",
  "cn10756 lo10760 cn10768 lm10780 cn10786 lm10787 cn107B1 lm107B2 cn107BB lo10800 cn10806",
  "lo10808 cn10809 lo1080A cn10836 lo10837 cn10839 lo1083C cn1083D lo1083F cn10856 po10857",
  "no10858 lo10860 so10877 no10879 lo10880 cn1089F no108A7 cn108B0 lo108E0 cn108F3 lo108F4",
  "cn108F6 no108FB lo10900 no10916 cn1091C po1091F lo10920 cn1093A po1093F lo10940 cn1095A",
  "lo10980 cn109B8 no109BC lo109BE no109C0 cn109D0 no109D2 lo10A00 mn10A01 cn10A04 mn10A05",
  "cn10A07 mn10A0C lo10A10 cn10A14 lo10A15 cn10A18 lo10A19 cn10A36 mn10A38 cn10A3B mn10A3F",
  "no10A40 cn10A49 po10A50 cn10A59 lo10A60 no10A7D po10A7F lo10A80 no10A9D cn10AA0 lo10AC0",
  "so10AC8 lo10AC9 mn10AE5 cn10AE7 no10AEB po10AF0 cn10AF7 lo10B00 cn10B36 po10B39 lo10B40",
  "cn10B56 no10B58 lo10B60 cn10B73 no10B78 lo10B80 cn10B92 po10B99 cn10B9D no10BA9 cn10BB0",
  "lo10C00 cn10C49 lu10C80 cn10CB3 ll10CC0 cn10CF3 no10CFA lo10D00 mn10D24 cn10D28 nd10D30",
  "cn10D3A nd10D40 lo10D4A lm10D4E lo10D4F lu10D50 cn10D66 mn10D69 pd10D6E lm10D6F ll10D70",
  "cn10D86 sm10D8E cn10D90 no10E60 cn10E7F lo10E80 cn10EAA mn10EAB pd10EAD cn10EAE lo10EB0",
  "cn10EB2 lo10EC2 lm10EC5 lo10EC6 cn10EC8 po10ED0 so10ED1 cn10ED9 mn10EFA lo10F00 no10F1D",
  "lo10F27 cn10F28 lo10F30 mn10F46 no10F51 po10F55 cn10F5A lo10F70 mn10F82 po10F86 cn10F8A",
  "lo10FB0 no10FC5 cn10FCC lo10FE0 cn10FF7 mc11000 mn11001 mc11002 lo11003 mn11038 po11047",
  "cn1104E no11052 nd11066 mn11070 lo11071 mn11073 lo11075 cn11076 mn1107F mc11082 lo11083",
  "mc110B0 mn110B3 mc110B7 mn110B9 po110BB cf110BD po110BE mn110C2 cn110C3 cf110CD cn110CE",
  "lo110D0 cn110E9 nd110F0 cn110FA mn11100 lo11103 mn11127 mc1112C mn1112D cn11135 nd11136",
  "po11140 lo11144 mc11145 lo11147 cn11148 lo11150 mn11173 po11174 lo11176 cn11177 mn11180",
  "mc11182 lo11183 mc111B3 mn111B6 mc111BF lo111C1 po111C5 mn111C9 po111CD mc111CE mn111CF",
  "nd111D0 lo111DA po111DB lo111DC po111DD cn111E0 no111E1 cn111F5 lo11200 cn11212 lo11213",
  "mc1122C mn1122F mc11232 mn11234 mc11235 mn11236 po11238 mn1123E lo1123F mn11241 cn11242",
  "lo11280 cn11287 lo11288 cn11289 lo1128A cn1128E lo1128F cn1129E lo1129F po112A9 cn112AA",
  "lo112B0 mn112DF mc112E0 mn112E3 cn112EB nd112F0 cn112FA mn11300 mc11302 cn11304 lo11305",
  "cn1130D lo1130F cn11311 lo11313 cn11329 lo1132A cn11331 lo11332 cn11334 lo11335 cn1133A",
  "mn1133B lo1133D mc1133E mn11340 mc11341 cn11345 mc11347 cn11349 mc1134B cn1134E lo11350",
  "cn11351 mc11357 cn11358 lo1135D mc11362 cn11364 mn11366 cn1136D mn11370 cn11375 lo11380",
  "cn1138A lo1138B cn1138C lo1138E cn1138F lo11390 cn113B6 lo113B7 mc113B8 mn113BB cn113C1",
  "mc113C2 cn113C3 mc113C5 cn113C6 mc113C7 cn113CB mc113CC mn113CE mc113CF mn113D0 lo113D1",
  "mn113D2 lo113D3 po113D4 cn113D6 po113D7 cn113D9 mn113E1 cn113E3 lo11400 mc11435 mn11438",
  "mc11440 mn11442 mc11445 mn11446 lo11447 po1144B nd11450 po1145A cn1145C po1145D mn1145E",
  "lo1145F cn11462 lo11480 mc114B0 mn114B3 mc114B9 mn114BA mc114BB mn114BF mc114C1 mn114C2",
  "lo114C4 po114C6 lo114C7 cn114C8 nd114D0 cn114DA lo11580 mc115AF mn115B2 cn115B6 mc115B8",
  "mn115BC mc115BE mn115BF po115C1 lo115D8 mn115DC cn115DE lo11600 mc11630 mn11633 mc1163B",
  "mn1163D mc1163E mn1163F po11641 lo11644 cn11645 nd11650 cn1165A po11660 cn1166D lo11680",
  "mn116AB mc116AC mn116AD mc116AE mn116B0 mc116B6 mn116B7 lo116B8 po116B9 cn116BA nd116C0",
  "cn116CA nd116D0 cn116E4 lo11700 cn1171B mn1171D mc1171E mn1171F mc11720 mn11722 mc11726",
  "mn11727 cn1172C nd11730 no1173A po1173C so1173F lo11740 cn11747 lo11800 mc1182C mn1182F",
  "mc11838 mn11839 po1183B cn1183C lu118A0 ll118C0 nd118E0 no118EA cn118F3 lo118FF cn11907",
  "lo11909 cn1190A lo1190C cn11914 lo11915 cn11917 lo11918 mc11930 cn11936 mc11937 cn11939",
  "mn1193B mc1193D mn1193E lo1193F mc11940 lo11941 mc11942 mn11943 po11944 cn11947 nd11950",
  "cn1195A lo119A0 cn119A8 lo119AA mc119D1 mn119D4 cn119D8 mn119DA mc119DC mn119E0 lo119E1",
  "po119E2 lo119E3 mc119E4 cn119E5 lo11A00 mn11A01 lo11A0B mn11A33 mc11A39 lo11A3A mn11A3B",
  "po11A3F mn11A47 cn11A48 lo11A50 mn11A51 mc11A57 mn11A59 lo11A5C mn11A8A mc11A97 mn11A98",
  "po11A9A lo11A9D po11A9E cn11AA3 lo11AB0 cn11AF9 po11B00 cn11B0A mn11B60 mc11B61 mn11B62",
  "mc11B65 mn11B66 mc11B67 cn11B68 lo11BC0 po11BE1 cn11BE2 nd11BF0 cn11BFA lo11C00 cn11C09",
  "lo11C0A mc11C2F mn11C30 cn11C37 mn11C38 mc11C3E mn11C3F lo11C40 po11C41 cn11C46 nd11C50",
  "no11C5A cn11C6D po11C70 lo11C72 cn11C90 mn11C92 cn11CA8 mc11CA9 mn11CAA mc11CB1 mn11CB2",
  "mc11CB4 mn11CB5 cn11CB7 lo11D00 cn11D07 lo11D08 cn11D0A lo11D0B mn11D31 cn11D37 mn11D3A",
  "cn11D3B mn11D3C cn11D3E mn11D3F lo11D46 mn11D47 cn11D48 nd11D50 cn11D5A lo11D60 cn11D66",
  "lo11D67 cn11D69 lo11D6A mc11D8A cn11D8F mn11D90 cn11D92 mc11D93 mn11D95 mc11D96 mn11D97",
  "lo11D98 cn11D99 nd11DA0 cn11DAA lo11DB0 lm11DD9 lo11DDA cn11DDC nd11DE0 cn11DEA lo11EE0",
  "mn11EF3 mc11EF5 po11EF7 cn11EF9 mn11F00 lo11F02 mc11F03 lo11F04 cn11F11 lo11F12 mc11F34",
  "mn11F36 cn11F3B mc11F3E mn11F40 mc11F41 mn11F42 po11F43 nd11F50 mn11F5A cn11F5B lo11FB0",
  "cn11FB1 no11FC0 so11FD5 sc11FDD so11FE1 cn11FF2 po11FFF lo12000 cn1239A nl12400 cn1246F",
  "po12470 cn12475 lo12480 cn12544 lo12F90 po12FF1 cn12FF3 lo13000 cf13430 mn13440 lo13441",
  "mn13447 cn13456 lo13460 cn143FB lo14400 cn14647 lo16100 mn1611E mc1612A mn1612D nd16130",
  "cn1613A lo16800 cn16A39 lo16A40 cn16A5F nd16A60 cn16A6A po16A6E lo16A70 cn16ABF nd16AC0",
  "cn16ACA lo16AD0 cn16AEE mn16AF0 po16AF5 cn16AF6 lo16B00 mn16B30 po16B37 so16B3C lm16B40",
  "po16B44 so16B45 cn16B46 nd16B50 cn16B5A no16B5B cn16B62 lo16B63 cn16B78 lo16B7D cn16B90",
  "lm16D40 lo16D43 lm16D6B po16D6D nd16D70 cn16D7A lu16E40 ll16E60 no16E80 po16E97 cn16E9B",
  "lu16EA0 cn16EB9 ll16EBB cn16ED4 lo16F00 cn16F4B mn16F4F lo16F50 mc16F51 cn16F88 mn16F8F",
  "lm16F93 cn16FA0 lm16FE0 po16FE2 lm16FE3 mn16FE4 cn16FE5 mc16FF0 lm16FF2 nl16FF4 cn16FF7",
  "lo17000 cn18CD6 lo18CFF cn18D1F lo18D80 cn18DF3 lm1AFF0 cn1AFF4 lm1AFF5 cn1AFFC lm1AFFD",
  "cn1AFFF lo1B000 cn1B123 lo1B132 cn1B133 lo1B150 cn1B153 lo1B155 cn1B156 lo1B164 cn1B168",
  "lo1B170 cn1B2FC lo1BC00 cn1BC6B lo1BC70 cn1BC7D lo1BC80 cn1BC89 lo1BC90 cn1BC9A so1BC9C",
  "mn1BC9D po1BC9F cf1BCA0 cn1BCA4 so1CC00 nd1CCF0 so1CCFA cn1CCFD so1CD00 cn1CEB4 so1CEBA",
  "cn1CED1 so1CEE0 sm1CEF0 cn1CEF1 mn1CF00 cn1CF2E mn1CF30 cn1CF47 so1CF50 cn1CFC4 so1D000",
  "cn1D0F6 so1D100 cn1D127 so1D129 mc1D165 mn1D167 so1D16A mc1D16D cf1D173 mn1D17B so1D183",
  "mn1D185 so1D18C mn1D1AA so1D1AE cn1D1EB so1D200 mn1D242 so1D245 cn1D246 no1D2C0 cn1D2D4",
  "no1D2E0 cn1D2F4 so1D300 cn1D357 no1D360 cn1D379 lu1D400 ll1D41A lu1D434 ll1D44E cn1D455",
  "ll1D456 lu1D468 ll1D482 lu1D49C cn1D49D lu1D49E cn1D4A0 lu1D4A2 cn1D4A3 lu1D4A5 cn1D4A7",
  "lu1D4A9 cn1D4AD lu1D4AE ll1D4B6 cn1D4BA ll1D4BB cn1D4BC ll1D4BD cn1D4C4 ll1D4C5 lu1D4D0",
  "ll1D4EA lu1D504 cn1D506 lu1D507 cn1D50B lu1D50D cn1D515 lu1D516 cn1D51D ll1D51E lu1D538",
  "cn1D53A lu1D53B cn1D53F lu1D540 cn1D545 lu1D546 cn1D547 lu1D54A cn1D551 ll1D552 lu1D56C",
  "ll1D586 lu1D5A0 ll1D5BA lu1D5D4 ll1D5EE lu1D608 ll1D622 lu1D63C ll1D656 lu1D670 ll1D68A",
  "cn1D6A6 lu1D6A8 sm1D6C1 ll1D6C2 sm1D6DB ll1D6DC lu1D6E2 sm1D6FB ll1D6FC sm1D715 ll1D716",
  "lu1D71C sm1D735 ll1D736 sm1D74F ll1D750 lu1D756 sm1D76F ll1D770 sm1D789 ll1D78A lu1D790",
  "sm1D7A9 ll1D7AA sm1D7C3 ll1D7C4 lu1D7CA ll1D7CB cn1D7CC nd1D7CE so1D800 mn1DA00 so1DA37",
  "mn1DA3B so1DA6D mn1DA75 so1DA76 mn1DA84 so1DA85 po1DA87 cn1DA8C mn1DA9B cn1DAA0 mn1DAA1",
  "cn1DAB0 ll1DF00 lo1DF0A ll1DF0B cn1DF1F ll1DF25 cn1DF2B mn1E000 cn1E007 mn1E008 cn1E019",
  "mn1E01B cn1E022 mn1E023 cn1E025 mn1E026 cn1E02B lm1E030 cn1E06E mn1E08F cn1E090 lo1E100",
  "cn1E12D mn1E130 lm1E137 cn1E13E nd1E140 cn1E14A lo1E14E so1E14F cn1E150 lo1E290 mn1E2AE",
  "cn1E2AF lo1E2C0 mn1E2EC nd1E2F0 cn1E2FA sc1E2FF cn1E300 lo1E4D0 lm1E4EB mn1E4EC nd1E4F0",
  "cn1E4FA lo1E5D0 mn1E5EE lo1E5F0 nd1E5F1 cn1E5FB po1E5FF cn1E600 lo1E6C0 cn1E6DF lo1E6E0",
  "mn1E6E3 lo1E6E4 mn1E6E6 lo1E6E7 mn1E6EE lo1E6F0 mn1E6F5 cn1E6F6 lo1E6FE lm1E6FF cn1E700",
  "lo1E7E0 cn1E7E7 lo1E7E8 cn1E7EC lo1E7ED cn1E7EF lo1E7F0 cn1E7FF lo1E800 cn1E8C5 no1E8C7",
  "mn1E8D0 cn1E8D7 lu1E900 ll1E922 mn1E944 lm1E94B cn1E94C nd1E950 cn1E95A po1E95E cn1E960",
  "no1EC71 so1ECAC no1ECAD sc1ECB0 no1ECB1 cn1ECB5 no1ED01 so1ED2E no1ED2F cn1ED3E lo1EE00",
  "cn1EE04 lo1EE05 cn1EE20 lo1EE21 cn1EE23 lo1EE24 cn1EE25 lo1EE27 cn1EE28 lo1EE29 cn1EE33",
  "lo1EE34 cn1EE38 lo1EE39 cn1EE3A lo1EE3B cn1EE3C lo1EE42 cn1EE43 lo1EE47 cn1EE48 lo1EE49",
  "cn1EE4A lo1EE4B cn1EE4C lo1EE4D cn1EE50 lo1EE51 cn1EE53 lo1EE54 cn1EE55 lo1EE57 cn1EE58",
  "lo1EE59 cn1EE5A lo1EE5B cn1EE5C lo1EE5D cn1EE5E lo1EE5F cn1EE60 lo1EE61 cn1EE63 lo1EE64",
  "cn1EE65 lo1EE67 cn1EE6B lo1EE6C cn1EE73 lo1EE74 cn1EE78 lo1EE79 cn1EE7D lo1EE7E cn1EE7F",
  "lo1EE80 cn1EE8A lo1EE8B cn1EE9C lo1EEA1 cn1EEA4 lo1EEA5 cn1EEAA lo1EEAB cn1EEBC sm1EEF0",
  "cn1EEF2 so1F000 cn1F02C so1F030 cn1F094 so1F0A0 cn1F0AF so1F0B1 cn1F0C0 so1F0C1 cn1F0D0",
  "so1F0D1 cn1F0F6 no1F100 so1F10D cn1F1AE so1F1E6 cn1F203 so1F210 cn1F23C so1F240 cn1F249",
  "so1F250 cn1F252 so1F260 cn1F266 so1F300 sk1F3FB so1F400 cn1F6D9 so1F6DC cn1F6ED so1F6F0",
  "cn1F6FD so1F700 cn1F7DA so1F7E0 cn1F7EC so1F7F0 cn1F7F1 so1F800 cn1F80C so1F810 cn1F848",
  "so1F850 cn1F85A so1F860 cn1F888 so1F890 cn1F8AE so1F8B0 cn1F8BC so1F8C0 cn1F8C2 sm1F8D0",
  "cn1F8D9 so1F900 cn1FA58 so1FA60 cn1FA6E so1FA70 cn1FA7D so1FA80 cn1FA8B so1FA8E cn1FAC7",
  "so1FAC8 cn1FAC9 so1FACD cn1FADD so1FADF cn1FAEB so1FAEF cn1FAF9 so1FB00 cn1FB93 so1FB94",
  "nd1FBF0 so1FBFA cn1FBFB lo20000 cn2A6E0 lo2A700 cn2B81E lo2B820 cn2CEAE lo2CEB0 cn2EBE1",
  "lo2EBF0 cn2EE5E lo2F800 cn2FA1E lo30000 cn3134B lo31350 cn3347A cfE0001 cnE0002 cfE0020",
  "cnE0080 mnE0100 cnE01F0 coF0000 cnFFFFE co100000 cn10FFFE"]

private def readRun (token : List Char) : Category × Nat :=
  ((Category.ofCode? (token.take 2)).getD .cn, readHex (token.drop 2))

/-- The runs of equal category: the category and the first code point of each. -/
def categoryRuns : Array (Category × Nat) :=
  (categoryRows.flatMap fun row => (tokens row).map readRun).toArray

def category (c : Char) : Category :=
  let start i := (categoryRuns.getD i (.cn, 0)).2
  (categoryRuns.getD (lastAtMost start c.toNat 0 categoryRuns.size) (.cn, 0)).1

end Companion.Unicode
