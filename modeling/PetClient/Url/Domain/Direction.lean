import PetClient.Text.CharTable

/-!
The direction in which characters are written, and what else decides how a label may mix directions.
-/

namespace PetClient.Url.Domain

open Text (CharTable)

/-- The directional classes of characters; the others are written from left to right. -/
def directions : CharTable := .ofText
    "0-8:BN 0:S 0:B 0:S 0:WS 0:B 0-d:BN 0-2:B 0:S 0:WS 0-1:ON 0-2:ET 0-4:ON 0:ES 0:CS 0:ES 0-1:CS
    0-9:EN 0:CS 0-5:ON 1a-5:ON 1a-3:ON 0-5:BN 0:B 0-19:BN 0:CS 0:ON 0-3:ET 0-3:ON 1-1:ON 0:BN 0-1:ON
    0-1:ET 0-1:EN 0:ON 1-2:ON 0:EN 1-4:ON 17:ON 1f:ON 1c1-1:ON 7-d:ON 2-d:ON 5-8:ON 1-10:ON 0-6f:NSM
    4-1:ON 8:ON 5-1:ON 1:ON 6e:ON 8c-6:NSM 100:ON 2-1:ON 0:ET 0:R 0-2c:NSM 0:R 0:NSM 0:R 0-1:NSM 0:R
    0-1:NSM 0:R 0:NSM 0-37:R 0-5:AN 0-1:ON 0:AL 0-1:ET 0:AL 0:CS 0:AL 0-1:ON 0-a:NSM 0-2f:AL
    0-14:NSM 0-9:AN 0:ET 0-1:AN 0-2:AL 0:NSM 0-64:AL 0-6:NSM 0:AN 0:ON 0-5:NSM 0-1:AL 0-1:NSM 0:ON
    0-3:NSM 0-1:AL 0-9:EN 0-16:AL 0:NSM 0-1d:AL 0-1a:NSM 0-5a:AL 0-a:NSM 0-e:AL 0-2a:R 0-8:NSM 0-1:R
    0-3:ON 0-2:R 0:NSM 0-17:R 0-3:NSM 0:R 0-8:NSM 0:R 0-2:NSM 0:R 0-4:NSM 0-2a:R 0-2:NSM 0-3:R
    0-2f:AL 0-1:AN 0-4:AL 0-8:NSM 0-29:AL 0-17:NSM 0:AN 0-1f:NSM 37:NSM 1:NSM 4-7:NSM 4:NSM 3-6:NSM
    a-1:NSM 1d:NSM 3a:NSM 4-3:NSM 8:NSM 14-1:NSM e-1:ET 7:ET 2:NSM 2-1:NSM 39:NSM 4-1:NSM 4-1:NSM
    2-2:NSM 3:NSM 1e-1:NSM 3:NSM b-1:NSM 39:NSM 4-4:NSM 1-1:NSM 4:NSM 14-1:NSM d:ET 8-5:NSM 1:NSM
    3a:NSM 2:NSM 1-3:NSM 8:NSM 7-1:NSM b-1:NSM 1e:NSM 3d:NSM c:NSM 25-5:ON 0:ET 0:ON 5:NSM 3:NSM
    37:NSM 1-2:NSM 5-2:NSM 1-3:NSM 7-1:NSM b-1:NSM 14-6:ON 2:NSM 3a:NSM f-1:NSM 14-1:NSM 1c-1:NSM
    39-1:NSM 4-3:NSM 8:NSM 14-1:NSM 1d:NSM 48:NSM 7-2:NSM 1:NSM 5a:NSM 2-6:NSM 4:ET 7-7:NSM 62:NSM
    2-8:NSM b-6:NSM 49-1:NSM 1b:NSM 1:NSM 1:NSM 0-3:ON 33-d:NSM 1-4:NSM 1-1:NSM 5-a:NSM 1-23:NSM
    9:NSM 66-3:NSM 1-5:NSM 1-1:NSM 2-1:NSM 19-1:NSM 4-2:NSM 10-3:NSM d:NSM 2-1:NSM 6:NSM f:NSM
    2bf-2:NSM 30-9:ON 66:ON 27f:WS 1a-1:ON 75-2:NSM 1d-1:NSM 1e-1:NSM 1e-1:NSM 40-1:NSM 1-6:NSM
    8:NSM 2-a:NSM 7:ET 1:NSM 12-9:ON 6-a:ON 0-2:NSM 0:BN 0:NSM 75-1:NSM 22:NSM 76-2:NSM 4-1:NSM
    9:NSM 6-2:NSM 4:ON 3-1:ON 98-21:ON 17-1:NSM 2:NSM 3a:NSM 1-6:NSM 1:NSM 1:NSM 2-7:NSM 6-9:NSM
    2:NSM 30-2d:NSM 2-b:NSM 14-3:NSM 30:NSM 1-4:NSM 1:NSM 5:NSM 28-8:NSM c-1:NSM 20-3:NSM 2-1:NSM
    1-2:NSM 38:NSM 1-1:NSM 3:NSM 1-2:NSM 3a-7:NSM 2-1:NSM 98-2:NSM 1-c:NSM 1-6:NSM 4:NSM 6:NSM
    3-1:NSM c6-3f:NSM 1bd:ON 1-2:ON b-2:ON d-2:ON d-2:ON d-1:ON 1-a:WS 0-2:BN 1:R 0-17:ON 0:WS 0:B
    0:LRE 0:RLE 0:PDF 0:LRO 0:RLO 0:CS 0-4:ET 0-e:ON 0:CS 0-19:ON 0:WS 0-5:BN 0:LRI 0:RLI 0:FSI
    0:PDI 0-5:BN 0:EN 3-5:EN 0-1:ES 0-2:ON 1-9:EN 0-1:ES 0-2:ON 11-2f:ET 0-20:NSM f-1:ON 1-3:ON
    1-1:ON a:ON 1-2:ON 5-5:ON 1:ON 1:ON 1:ON 4:ET b-1:ON 4-4:ON 5-3:ON 2-f:ON 29-2:ON 4-81:ON 0:ES
    0:ET 0-121:ON 45-19:ON 1-93:ON 16-a:ON 15-27:ON 0-13:EN 4e-1c1:ON 1-152:ON 100-273:ON 2-89:ON
    e5-5:ON 4-2:NSM 7-6:ON 7f:NSM 60-1f:NSM 0-5d:ON 22-19:ON 1-58:ON c-d5:ON 1a-f:ON 0:WS 0-3:ON
    3-18:ON 9-3:NSM 2:ON 5-1:ON 5-2:ON 59-1:NSM 0-1:ON 3:ON 5a:ON c4-25:ON 9:ON 2d-1:ON 31-f:ON
    1c-2:ON 32-e:ON c-3:ON a7-3:ON 63-1:ON 1f:ON 19c0-3f:ON 5690-36:ON 146-2:ON 5f-3:NSM 0:ON
    0-9:NSM 0-1:ON 1e-1:NSM 50-1:NSM e-21:ON 66:ON 79:NSM 3:NSM 4:NSM 19-1:NSM 1-3:ON 0:NSM b-1:ET
    3a-3:ON 4c-1:NSM 1a-11:NSM d:NSM 26-7:NSM 19-a:NSM 2e-2:NSM 30:NSM 2-3:NSM 2-1:NSM 27:NSM
    43-5:NSM 2-1:NSM 2-1:NSM c:NSM 8:NSM 2f:NSM 33:NSM 1-2:NSM 2-1:NSM 5-1:NSM 1:NSM 2a-1:NSM 8:NSM
    73-1:ON 79:NSM 2:NSM 4:NSM 4f2f:R 0:NSM 0-9:R 0:ES 0-25:R 0-72:AL 0-f:ON 0-16a:AL 0-11:ON
    0-3f:AL 0-1:ON 0-35:AL 0-7:ON 0-1f:BN 0-c:AL 0-2:ON 0-f:NSM 0-9:ON 6-f:NSM 0-1f:ON 0:CS 0:ON
    0:CS 1:ON 0:CS 0-8:ON 0:ET 0-1:ON 0-1:ES 0-2:ON 1:ON 0-1:ET 0:ON 4-8e:AL 0:BN 1-1:ON 0-2:ET
    0-4:ON 0:ES 0:CS 0:ES 0-1:CS 0-9:EN 0:CS 0-5:ON 1a-5:ON 1a-a:ON 7a-1:ET 0-2:ON 0-1:ET 1-6:ON
    1-8:BN 0-4:ON 0-1:BN 101:ON 3e-4c:ON 3-c:ON 3:ON 5c:NSM e2:NSM 0-1a:EN 7a-4:NSM 485-11e:R 0:ON
    0-e0:R 0-2:NSM 0:R 0-1:NSM 0-4:R 0-3:NSM 0-27:R 0-2:NSM 0-3:R 0:NSM 0-a4:R 0-1:NSM 0-51:R 0-6:ON
    0-1bf:R 0-23:AL 0-3:NSM 0-7:AL 0-9:AN 0-5:AL 0-9:AN 0-1e:R 0-4:NSM 0:ON 0-f0:R 0-1e:AN 0-2b:R
    0-1:NSM 0-12:R 0-f:AL 0-8:ON 0-20:AL 0-5:NSM 0-2f:R 0-15:AL 0-a:NSM 0-1e:AL 0-11:R 0-3:NSM
    0-79:R 1:NSM 36-e:NSM b-13:ON a:NSM 2-1:NSM a-2:NSM 31-3:NSM 2-1:NSM 7:NSM 3d-2:NSM 24-4:NSM
    1-7:NSM 3e:NSM c-1:NSM 34-8:NSM a-3:NSM 2:NSM 5f-2:NSM 2:NSM 1-1:NSM 6:NSM 2:NSM 9d:NSM 3-7:NSM
    15-1:NSM 39-1:NSM 3:NSM 25-6:NSM 3-4:NSM 46-5:NSM d:NSM 1:NSM 1:NSM e-1:NSM 55-7:NSM 2-2:NSM
    1:NSM 17:NSM 54-5:NSM 1:NSM 4-1:NSM 1-1:NSM ee-3:NSM 6-1:NSM 1-1:NSM 1b-1:NSM 55-7:NSM 2:NSM
    1-1:NSM 1f-c:ON 3e:NSM 1:NSM 2-5:NSM 1:NSM 65:NSM 1:NSM 2-3:NSM 1-4:NSM 103-8:NSM 1-1:NSM
    100-1:NSM 1:NSM 4:NSM 90-3:NSM 2-1:NSM 4:NSM 20-5:NSM 2-1:NSM 28-5:NSM 2-3:NSM 8:NSM 9-5:NSM
    2-2:NSM 2e-c:NSM 1-1:NSM c6:NSM 1-2:NSM 1:NSM c9-6:NSM 1-5:NSM 54-15:NSM 2-6:NSM 1-1:NSM 1-1:NSM
    7a-5:NSM 3:NSM 1-1:NSM 1-6:NSM 1:NSM 48-1:NSM 3:NSM 1:NSM 15b-1:NSM b-1:NSM 34-4:NSM 5:NSM 1:NSM
    17:NSM 7a-7:ON 0-3:ET 0-10:ON 144e:NSM 6-e:NSM 2cc8-b:NSM 3-2:NSM 9c0-4:NSM 3b-6:NSM 418:NSM
    3f-3:NSM 4f:ON 1:NSM 4cb8-1:NSM 1-3:BN f5c-d5:ON 1a-9:EN 0-2:ON 3-1b3:ON 6-16:ON f-10:ON
    f-2d:NSM 2-16:NSM 220-2:NSM 9-7:BN 0-7:NSM 2-6:NSM 1e-3:NSM 3b-1:ON 15-41:ON 0-2:NSM 0:ON
    ba-56:ON 36a:ON 19:ON 1f:ON 19:ON 1f:ON 19:ON 1f:ON 19:ON 1f:ON 19:ON a-31:EN 200-36:NSM
    4-31:NSM 8:NSM e:NSM 16-4:NSM 1-e:NSM 550-6:NSM 1-10:NSM 2-6:NSM 1-1:NSM 1-4:NSM 64:NSM a0-6:NSM
    177:NSM 3d-3:NSM f:ET 1ec-3:NSM fe-1:NSM f3:NSM 2:NSM 7-1:NSM 5:NSM 10a-cf:R 0-6:NSM 0-6c:R
    0-6:NSM 0-324:R 0-4f:AL 0-3f:R 0-4f:AL 0-af:R 0-ef:AL 0-1:ON 0-d:AL 0-ff:R 0-2b:ON 4-63:ON
    c-e:ON 2-e:ON 1-e:ON 1-24:ON a-a:EN 0-4:ON 1f:ON 3a-5:ON 3d:ON b2-5:ON 9a-3d8:ON 3-10:ON 3-c:ON
    3-d9:ON 6-b:ON 4:ON f-b:ON 4-37:ON 8-9:ON 6-27:ON 8-1d:ON 2-b:ON 4-1:ON e-8:ON 27-157:ON 8-d:ON
    2-c:ON 3-a:ON 3-38:ON 1:ON 4-f:ON 2-b:ON 4-9:ON 7-92:ON 1-5b:ON 0-9:EN 0:ON 403-1:BN fffe-1:BN
    fffe-1:BN fffe-1:BN fffe-1:BN fffe-1:BN fffe-1:BN fffe-1:BN fffe-1:BN fffe-1:BN fffe-1:BN
    fffe-1:BN fffe-101:BN 0-ef:NSM 0-e0f:BN effe-1:BN fffe-1:BN fffe-1:BN"

end PetClient.Url.Domain
